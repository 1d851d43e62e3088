import MarkdownTidy.Proofs.Document.RoundBurden
import MarkdownTidy.Proofs.Line.Chances

namespace MarkdownTidy

/-- How many fixes can be made to the lines of a document, in any number of rounds, at most. -/
def Document.chances : Document → Nat
  | [] => 0
  | l :: rest => l.chances + chances rest

variable {s : Settings} {d : Document}

theorem chances_cons (l : Line) (rest : List Line) :
    Document.chances (l :: rest) = l.chances + Document.chances rest := rfl

theorem chances_le_five_mul_length (d : Document) : d.chances ≤ 5 * d.length := by
  induction d with
  | nil => rfl
  | cons l rest ih =>
    have here := l.chances_le_five
    rw [chances_cons, List.length_cons]
    omega

/-- Edits that change anything lower the chances of the document. -/
theorem editFrom_rests_or_lowers (s : Settings) (around : Surroundings) (d : List Line) :
    s.editFrom around d = pure d ∨ Document.chances (s.editFrom around d).value < Document.chances d := by
  induction d generalizing around with
  | nil => exact Or.inl rfl
  | cons l rest ih =>
    have later := ih (around.past (s.editLine around rest.head? l).value)
    have here := editLine_rests_or_lowers s around rest.head? l
    rw [editFrom_cons, chances_cons, chances_cons]
    rcases here with same | lower
    · rw [same] at later ⊢
      rcases later with rests | lower
      · exact Or.inl (by rw [rests]; rfl)
      · exact Or.inr (Nat.add_lt_add_left lower l.chances)
    · right
      rcases later with rests | lower'
      · rw [rests]
        exact Nat.add_lt_add_right lower (Document.chances rest)
      · exact Nat.add_lt_add lower lower'

theorem chances_eq_sum (d : Document) : d.chances = (d.map Line.chances).sum := by
  induction d with
  | nil => rfl
  | cons l rest ih => rw [chances_cons, ih, List.map_cons, List.sum_cons]

theorem gap_run_chances (s : Settings) (around : Surroundings) (d : List Line) :
    Document.chances (s.gapLocalRule.run around d).value = Document.chances d := by
  rw [chances_eq_sum, chances_eq_sum]
  exact sum_map_gap_run Line.chances rfl s around d

theorem round_chances (s : Settings) (d : Document) :
    (s.round d).value.chances = (s.editLines d).value.chances := by
  rw [round_value]
  exact gap_run_chances s {} _

theorem round_chances_le (s : Settings) (d : Document) : (s.round d).value.chances ≤ d.chances := by
  rw [round_chances]
  rcases editFrom_rests_or_lowers s {} d with rests | lower
  · exact (congrArg (fun x => Document.chances x.value) rests).le
  · exact lower.le

/-- Where all gaps are made, a round either changes nothing or lowers the chances of the document. -/
theorem round_rests_or_lowers (spaced : s.Spaced {} d) :
    s.round d = pure d ∨ (s.round d).value.chances < d.chances := by
  rcases editFrom_rests_or_lowers s {} d with rests | lower
  · have edits : s.editLines d = pure d := rests
    rw [round_of_rest edits]
    exact Or.inl spaced.run_eq
  · rw [round_chances]
    exact Or.inr lower

end MarkdownTidy
