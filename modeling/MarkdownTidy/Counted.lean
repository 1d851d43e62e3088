import MarkdownTidy.PerRule

namespace MarkdownTidy

/-- A value together with the fixes that were made on the way to it. -/
structure Counted (α : Type) where
  value : α
  counts : Counts
  deriving DecidableEq

namespace Counted
variable {α β : Type}

instance : Monad Counted where
  pure a := ⟨a, 0⟩
  bind x f := ⟨(f x.value).value, x.counts + (f x.value).counts⟩

@[simp] theorem pure_value (a : α) : (pure a : Counted α).value = a := rfl

@[simp] theorem pure_counts (a : α) : (pure a : Counted α).counts = 0 := rfl

@[simp] theorem bind_value (x : Counted α) (f : α → Counted β) :
    (x >>= f).value = (f x.value).value := rfl

@[simp] theorem bind_counts (x : Counted α) (f : α → Counted β) :
    (x >>= f).counts = x.counts + (f x.value).counts := rfl

theorem ext_parts {x y : Counted α} (value : x.value = y.value) (counts : x.counts = y.counts) :
    x = y := by
  cases x
  cases y
  cases value
  cases counts
  rfl

/-- What is done next matters at the value only. -/
theorem bind_congr_value {x : Counted α} {f g : α → Counted β} (same : f x.value = g x.value) :
    x >>= f = x >>= g := by
  refine ext_parts ?_ ?_
  · rw [bind_value, bind_value, same]
  · rw [bind_counts, bind_counts, same]

instance : LawfulMonad Counted :=
  LawfulMonad.mk' Counted
    (fun x => ext_parts rfl (Counts.add_zero x.counts))
    (fun a f => ext_parts rfl (Counts.zero_add (f a).counts))
    (fun _ _ _ => ext_parts rfl (Counts.add_assoc _ _ _))

end Counted
end MarkdownTidy
