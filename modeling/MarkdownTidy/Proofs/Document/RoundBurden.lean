import MarkdownTidy.Document.Settling
import MarkdownTidy.Proofs.Document.BlockGaps
import MarkdownTidy.Proofs.Document.LineEdits
import MarkdownTidy.Proofs.Line.Burdens

namespace MarkdownTidy

/-- Every further line weighs for a document, so that blank lines lift its burden. -/
def Document.burden : Document → Int
  | [] => 0
  | l :: rest => l.burden - 1 + burden rest

variable {s : Settings} {around : Surroundings} {d : List Line}

theorem burden_cons (l : Line) (rest : List Line) :
    Document.burden (l :: rest) = l.burden - 1 + Document.burden rest := rfl

theorem editFrom_burden (s : Settings) (around : Surroundings) (d : List Line) :
    Document.burden (s.editFrom around d).value + (s.editFrom around d).counts.total ≤
      Document.burden d := by
  induction d generalizing around with
  | nil => exact (Int.add_zero _).le
  | cons l rest ih =>
    have here := editLine_burden s around rest.head? l
    have later := ih (around.past (s.editLine around rest.head? l).value)
    rw [editFrom_cons, burden_cons, burden_cons, Counts.total_add]
    omega

theorem burden_blankFor (wanted : Option Rule) (d : List Line) :
    Document.burden ((blankFor wanted).value ++ d) + (blankFor wanted).counts.total =
      Document.burden d := by
  cases wanted with
  | none => exact Int.add_zero _
  | some r =>
    have blank : Line.burden [] = 0 := rfl
    change Document.burden ([] :: d) + ((Counts.single r 1).total : Int) = _
    rw [burden_cons, blank, Counts.total_single]
    omega

theorem gap_run_burden (s : Settings) (around : Surroundings) (d : List Line) :
    Document.burden (s.gapLocalRule.run around d).value + (s.gapLocalRule.run around d).counts.total =
      Document.burden d := by
  induction d generalizing around with
  | nil => exact Int.add_zero _
  | cons l rest ih =>
    have later := ih (around.past l)
    have here := burden_blankFor (rest.head?.bind (s.gapRule? around.inFence l))
      (s.gapLocalRule.run (around.past l) rest).value
    rw [LocalRule.run_cons, gapLocalRule_eq_blankFor, Counts.total_add, List.cons_append, burden_cons,
      burden_cons]
    dsimp only
    omega

/-- Each fix of a round takes one off the burden of the document, or more. -/
theorem round_burden (s : Settings) (d : Document) :
    (s.round d).value.burden + (s.round d).counts.total ≤ d.burden := by
  have edits := editFrom_burden s {} d
  have gaps := gap_run_burden s {} (s.editLines d).value
  rw [round_value, round_counts, Counts.total_add]
  change Document.burden (s.editLines d).value + ((s.editLines d).counts.total : Int) ≤ _ at edits
  change Document.burden _ + (_ : Int) ≤ Document.burden d
  omega

theorem editFrom_eq_pure_of_counts (none : (s.editFrom around d).counts = 0) :
    s.editFrom around d = pure d := by
  induction d generalizing around with
  | nil => rfl
  | cons l rest ih =>
    rw [editFrom_cons] at none ⊢
    obtain ⟨here, later⟩ := Counts.add_eq_zero_iff.mp none
    have alone := Settings.editLine_eq_pure (Settings.editLine_counts_eq_zero_iff.mp here)
    rw [ih later, alone]
    rfl

theorem gap_run_eq_pure_of_counts (none : (s.gapLocalRule.run around d).counts = 0) :
    s.gapLocalRule.run around d = pure d := by
  refine LocalRule.run_eq_pure (EveryLine.imp (LocalRule.run_counts_eq_zero none) ?_)
  intro around following l noFix
  rw [gapLocalRule_eq_blankFor] at noFix ⊢
  cases wanted : following.bind (s.gapRule? around.inFence l) with
  | none => rfl
  | some r =>
    rw [wanted, ← Counts.total_eq_zero_iff] at noFix
    exact absurd ((Counts.total_single r 1).symm.trans noFix) Nat.one_ne_zero

theorem round_eq_pure_of_counts {d : Document} (none : (s.round d).counts = 0) :
    s.round d = pure d := by
  rw [round_counts] at none
  obtain ⟨noEdit, noGap⟩ := Counts.add_eq_zero_iff.mp none
  have edits : s.editLines d = pure d := editFrom_eq_pure_of_counts noEdit
  rw [edits] at noGap
  rw [round_of_rest edits]
  exact gap_run_eq_pure_of_counts noGap

/-- The fixes of a round do not cancel out, and nothing else changes the document. -/
theorem round_counts_eq_zero_iff {d : Document} : (s.round d).counts = 0 ↔ (s.round d).value = d := by
  constructor
  · intro none
    rw [round_eq_pure_of_counts none]
    rfl
  · intro same
    have less := round_burden s d
    rw [same] at less
    rw [← Counts.total_eq_zero_iff]
    omega

end MarkdownTidy
