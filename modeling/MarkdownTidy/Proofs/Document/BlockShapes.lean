import Mathlib.Data.List.TakeWhile
import MarkdownTidy.Document.Block

namespace MarkdownTidy
variable {l : Line}

theorem isListItem_after_splitList (ls : List Line) :
    ∀ next ∈ (Block.splitList ls).2.head?, next.isListItem = false := by
  induction ls with
  | nil => simp [Block.splitList]
  | cons l rest ih =>
    rw [Block.splitList]
    split
    · split
      · rename_i cut
        rw [cut] at ih
        split
        · exact ih
        · rename_i noItem
          simpa using noItem
      · rename_i cut
        rw [cut] at ih
        exact ih
    · rename_i neither
      simp only [Bool.or_eq_true, not_or, Bool.not_eq_true] at neither
      simpa using neither.1

theorem of_mem_splitList {ls : List Line} (member : l ∈ (Block.splitList ls).1) :
    l.isListItem = true ∨ l.isBlank = true := by
  induction ls with
  | nil => simp [Block.splitList] at member
  | cons first rest ih =>
    rw [Block.splitList] at member
    split at member
    · rename_i either
      rw [Bool.or_eq_true] at either
      split at member
      · split at member
        · obtain rfl : l = first := by simpa using member
          exact either
        · contradiction
      · rename_i cut
        rw [cut] at ih
        rcases List.mem_cons.mp member with rfl | later
        · exact either
        · exact ih later
    · contradiction

theorem isListItem_getLast?_splitList (ls : List Line) :
    ∀ last ∈ (Block.splitList ls).1.getLast?, last.isListItem = true := by
  induction ls with
  | nil => simp [Block.splitList]
  | cons l rest ih =>
    rw [Block.splitList]
    split
    · split
      · split
        · rename_i item
          simpa using item
        · simp
      · rename_i cut
        rw [cut] at ih
        exact ih
    · simp

theorem isListItem_last_of_list (item : l.isListItem = true) (ls : List Line) :
    ∀ last ∈ (l :: (Block.splitList ls).1).getLast?, last.isListItem = true := by
  rw [List.getLast?_cons]
  rintro last ⟨⟩
  cases others : (Block.splitList ls).1.getLast? with
  | none => exact item
  | some m => exact isListItem_getLast?_splitList ls m others

theorem splitFenced_parts (ls : List Line) :
    ∃ inside closing, (Block.splitFenced ls).1 = inside ++ closing ∧
      (∀ l ∈ inside, l.isFenceMarker = false) ∧ closing.length ≤ 1 ∧
      ((Block.splitFenced ls).2 ≠ [] → ∃ close, closing = [close] ∧ close.isFenceMarker = true) := by
  refine ⟨ls.takeWhile fun l => !l.isFenceMarker, (ls.dropWhile fun l => !l.isFenceMarker).take 1,
    rfl, ?_, List.length_take_le 1 _, ?_⟩
  · intro l member
    simpa using List.mem_takeWhile_imp member
  · intro more
    cases outside : ls.dropWhile fun l => !l.isFenceMarker with
    | nil => simp [Block.splitFenced, outside] at more
    | cons close rest =>
      have here := List.head?_dropWhile_not (fun l : Line => !l.isFenceMarker) ls
      rw [outside] at here
      exact ⟨close, rfl, by simpa using here⟩

theorem head?_ofLines (lists : Bool) (ls : List Line) :
    (Block.ofLines lists ls).head?.map Block.firstLine = ls.head? := by
  cases ls with
  | nil => rw [Block.ofLines]; rfl
  | cons l rest =>
    rw [Block.ofLines]
    split
    · rfl
    · split <;> rfl

end MarkdownTidy
