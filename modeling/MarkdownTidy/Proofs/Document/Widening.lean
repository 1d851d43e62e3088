import Mathlib.Data.Fintype.Card
import Mathlib.Data.List.Forall2
import Mathlib.Order.Fin.Basic
import MarkdownTidy.Document.Lines

namespace MarkdownTidy

/-- New lines hold the old ones in their order, each changed as `R` allows, and `n` empty lines more.
An empty line stands above an old one, and above the first of them only if `below` holds. -/
inductive Widened (R : Line → Line → Prop) : (below : Bool) → Document → Document → Nat → Prop
  | nil {below : Bool} : Widened R below [] [] 0
  | line {below : Bool} {l l' : Line} {old new : Document} {n : Nat} (changed : R l l')
      (rest : Widened R true old new n) : Widened R below (l :: old) (l' :: new) n
  | blank {l : Line} {old new : Document} {n : Nat} (rest : Widened R true (l :: old) new n) :
      Widened R true (l :: old) ([] :: new) (n + 1)

/-- A place among the new lines for each of the old ones, in their order. The lines in all other places
are empty. -/
structure Placing (R : Line → Line → Prop) (old new : Document)
    (place : Fin old.length → Fin new.length) : Prop where
  increasing : StrictMono place
  last : ∀ i, i.val + 1 = old.length → (place i).val + 1 = new.length
  changed : ∀ i, R old[i] new[place i]
  others : ∀ j, j ∉ Set.range place → new[j] = []

variable {R : Line → Line → Prop} {below : Bool} {l l' : Line} {old mid new : Document} {m n : Nat}

namespace Placing
variable {place : Fin old.length → Fin new.length}

theorem line (placing : Placing R old new place) (changed : R l l') (ends : old = [] → new = []) :
    Placing R (l :: old) (l' :: new) (Fin.cases 0 fun i => (place i).succ) := by
  refine ⟨?_, ?_, ?_, ?_⟩
  · intro i j less
    cases j using Fin.cases with
    | zero => exact absurd less (Fin.not_lt_zero i)
    | succ j =>
      cases i using Fin.cases with
      | zero => exact Fin.succ_pos _
      | succ i => exact Fin.succ_lt_succ_iff.mpr (placing.increasing (Fin.succ_lt_succ_iff.mp less))
  · intro i final
    cases i using Fin.cases with
    | zero =>
      have single : old = [] := List.length_eq_zero_iff.mp (Nat.succ.inj final).symm
      exact congrArg (·.length + 1) (ends single).symm
    | succ i => exact congrArg (· + 1) (placing.last i (Nat.succ.inj final))
  · intro i
    cases i using Fin.cases with
    | zero => exact changed
    | succ i => exact placing.changed i
  · intro j unused
    cases j using Fin.cases with
    | zero => exact absurd ⟨0, rfl⟩ unused
    | succ j =>
      refine placing.others j fun ⟨i, same⟩ => unused ⟨i.succ, ?_⟩
      exact congrArg Fin.succ same

theorem blank (placing : Placing R old new place) :
    Placing R old ([] :: new) fun i => (place i).succ where
  increasing _ _ less := Fin.succ_lt_succ_iff.mpr (placing.increasing less)
  last i final := congrArg (· + 1) (placing.last i final)
  changed := placing.changed
  others j unused := by
    cases j using Fin.cases with
    | zero => rfl
    | succ j => exact placing.others j fun ⟨i, same⟩ => unused ⟨i, congrArg Fin.succ same⟩

end Placing

namespace Widened

theorem of_forall₂ (lines : List.Forall₂ (fun l' l => R l l') new old) : Widened R below old new 0 := by
  induction lines generalizing below with
  | nil => exact .nil
  | cons changed _ ih => exact .line changed ih

theorem length_eq (wide : Widened R below old new n) : new.length = old.length + n := by
  induction wide with
  | nil => rfl
  | line _ _ ih => simp only [List.length_cons]; omega
  | blank _ ih => simp only [List.length_cons] at ih ⊢; omega

/-- Lines that are widened twice are widened by both numbers together, if no empty line is changed. -/
theorem trans (compose : ∀ l₁ l₂ l₃, R l₁ l₂ → R l₂ l₃ → R l₁ l₃) (empty : ∀ l, R [] l → l = [])
    (first : Widened R below old mid m) (second : Widened R below mid new n) :
    Widened R below old new (m + n) := by
  -- What the first widening put in is a line to the second, which leaves it empty.
  induction second generalizing old m with
  | nil =>
    cases first
    exact .nil
  | line changed _ ih =>
    cases first with
    | line changed' rest => exact .line (compose _ _ _ changed' changed) (ih rest)
    | blank rest =>
      obtain rfl := empty _ changed
      rw [Nat.add_right_comm]
      exact .blank (ih rest)
  | blank _ ih =>
    have longer := ih first
    cases first with
    | line => exact .blank longer
    | blank => exact .blank longer

theorem exists_place (wide : Widened R below old new n) :
    ∃ place, Placing R old new place ∧ (below = false → ∀ i, i.val = 0 → (place i).val = 0) := by
  induction wide with
  | nil =>
    refine ⟨id, ⟨strictMono_id, ?_, ?_, ?_⟩, ?_⟩
    all_goals intros; apply Fin.elim0; assumption
  | line changed rest ih =>
    obtain ⟨place, placing, -⟩ := ih
    refine ⟨_, placing.line changed ?_, fun _ i start => ?_⟩
    · rintro rfl
      cases rest
      rfl
    · cases i using Fin.cases with
      | zero => rfl
      | succ i => exact absurd start (Nat.succ_ne_zero _)
  | blank _ ih =>
    obtain ⟨place, placing, -⟩ := ih
    exact ⟨_, placing.blank, nofun⟩

/-- As many places are left to empty lines as there are lines more. -/
theorem placing (wide : Widened R false old new n) :
    ∃ place, Placing R old new place ∧ (∀ i, i.val = 0 → (place i).val = 0) ∧
      (Finset.univ.image place)ᶜ.card = n := by
  obtain ⟨place, placing, first⟩ := wide.exists_place
  refine ⟨place, placing, first rfl, ?_⟩
  rw [Finset.card_compl, Finset.card_image_of_injective _ placing.increasing.injective, Finset.card_univ,
    Fintype.card_fin, Fintype.card_fin, wide.length_eq, Nat.add_sub_cancel_left]

end Widened
end MarkdownTidy
