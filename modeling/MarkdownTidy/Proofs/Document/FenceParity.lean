import Mathlib.Algebra.Ring.Parity
import MarkdownTidy.Document.Editing

namespace MarkdownTidy

/-- How many fence markers there are among lines. -/
def fenceMarkers (ls : List Line) : Nat :=
  ls.countP Line.isFenceMarker

/-- What all the lines before a line say about it. -/
def Surroundings.below (before : List Line) : Surroundings :=
  before.foldl .past {}

variable {before : List Line} {previous : Line}

theorem fenceMarkers_concat (before : List Line) (l : Line) :
    fenceMarkers (before ++ [l]) = fenceMarkers before + if l.isFenceMarker then 1 else 0 := by
  rw [fenceMarkers, List.countP_append, List.countP_singleton]
  rfl

theorem below_concat (before : List Line) (l : Line) :
    Surroundings.below (before ++ [l]) = (Surroundings.below before).past l := by
  rw [Surroundings.below, List.foldl_append]
  rfl

theorem foldl_past_inFence (before : List Line) (around : Surroundings) :
    (before.foldl .past around).inFence = (around.inFence != decide (Odd (fenceMarkers before))) := by
  induction before generalizing around with
  | nil => cases inFence : around.inFence <;> simp [fenceMarkers, inFence]
  | cons l rest ih =>
    rw [List.foldl_cons, ih, Surroundings.past, fenceMarkers, fenceMarkers, List.countP_cons]
    cases l.isFenceMarker <;> cases around.inFence <;> simp [Nat.odd_add_one, -Nat.not_odd_iff_even]

theorem below_inFence (before : List Line) :
    (Surroundings.below before).inFence = decide (Odd (fenceMarkers before)) :=
  (foldl_past_inFence before {}).trans (Bool.false_bne _)

theorem inFence_of_odd (odd : Odd (fenceMarkers before)) :
    (Surroundings.below before).inFence = true :=
  (below_inFence before).trans (decide_eq_true odd)

theorem inFence_of_even (even : Even (fenceMarkers before)) :
    (Surroundings.below before).inFence = false :=
  (below_inFence before).trans (decide_eq_false (Nat.not_odd_iff_even.mpr even))

theorem inFence_snoc (even : Even (fenceMarkers (before ++ [previous]))) :
    (Surroundings.below before).inFence = previous.isFenceMarker := by
  have outside := inFence_of_even even
  rw [below_concat] at outside
  change ((Surroundings.below before).inFence != previous.isFenceMarker) = false at outside
  simpa using outside

end MarkdownTidy
