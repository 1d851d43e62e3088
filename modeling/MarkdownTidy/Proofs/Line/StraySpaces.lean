import MarkdownTidy.Line.StraySpace
import MarkdownTidy.Proofs.Text.Trimming

namespace MarkdownTidy.Line
variable {l : Line}

theorem getLast?_of_endsInOneSpace (stray : l.endsInOneSpace = true) : l.getLast? = some ' ' := by
  unfold endsInOneSpace at stray
  rw [← List.head?_reverse]
  split at stray
  · contradiction
  · rename_i shape
    rw [shape, List.head?_cons]
  · contradiction

/-- What stands before the last visible character does not matter, nor which one that is. -/
theorem endsInOneSpace_congr {c d : Char} (visible : isSpace c = false) (visible' : isSpace d = false)
    (front other back : Text) :
    endsInOneSpace (front ++ c :: back) = endsInOneSpace (other ++ d :: back) := by
  have notSpace {e : Char} (visible : isSpace e = false) : e ≠ ' ' := by
    rintro rfl
    contradiction
  unfold endsInOneSpace
  rw [List.reverse_append, List.reverse_append, List.reverse_cons, List.reverse_cons]
  match back.reverse with
  | [] => simp [notSpace visible, notSpace visible']
  | [e] => by_cases space : e = ' ' <;> simp [space, notSpace visible, notSpace visible']
  | e :: f :: _ => by_cases space : e = ' ' <;> by_cases second : f = ' ' <;> simp [space, second]

theorem endsInOneSpace_trimEnd (l : Line) : endsInOneSpace l.trimEnd = false := by
  rw [← Bool.not_eq_true]
  intro stray
  have last := Text.not_last_dropEndWhile isSpace l ' ' (getLast?_of_endsInOneSpace stray)
  contradiction

/-- What is stripped is white space, and at least the stray space itself. -/
theorem trimEnd_split (stray : l.endsInOneSpace = true) :
    ∃ tail, l.trimEnd ++ tail = l ∧ tail ≠ [] ∧ ∀ c ∈ tail, isSpace c = true := by
  obtain ⟨tail, whole, spaces⟩ := Text.dropEndWhile_split isSpace l
  refine ⟨tail, whole, ?_, spaces⟩
  rintro rfl
  have same : l.trimEnd = l := (List.append_nil _).symm.trans whole
  rw [← same, endsInOneSpace_trimEnd] at stray
  contradiction

end MarkdownTidy.Line
