import MarkdownTidy.Document.Settling
import MarkdownTidy.Proofs.Document.BlockGaps
import MarkdownTidy.Proofs.Document.LineEdits
import MarkdownTidy.Proofs.Document.Widening
import MarkdownTidy.Proofs.Line.KeptText
import MarkdownTidy.Proofs.Line.SignCounts

namespace MarkdownTidy

/-- How many blank lines were put in. -/
def Counts.blankLines (c : Counts) : Nat :=
  c.fenceSpacing + c.listSpacing

variable {s : Settings} {around : Surroundings} {following : Option Line} {l l' next : Line} {r : Rule}
  {edited : Edited} {d : List Line}

theorem blankLines_add (a b : Counts) : (a + b).blankLines = a.blankLines + b.blankLines := by
  have fences : (a + b).fenceSpacing = a.fenceSpacing + b.fenceSpacing := rfl
  have lists : (a + b).listSpacing = a.listSpacing + b.listSpacing := rfl
  rw [Counts.blankLines, fences, lists, Counts.blankLines, Counts.blankLines]
  omega

theorem gapRule?_spacing {inFence : Bool} (wanted : s.gapRule? inFence l next = some r) :
    r = .fenceSpacing ∨ r = .listSpacing := by
  unfold Settings.gapRule? at wanted
  grind

theorem LineFix.blankLines_eq_zero (fix : LineFix s around following l r edited) :
    (Counts.single r edited.fixes).blankLines = 0 := by
  cases fix <;> rfl

theorem editLine_blankLines (s : Settings) (around : Surroundings) (following : Option Line) (l : Line) :
    (s.editLine around following l).counts.blankLines = 0 := by
  refine s.editLine_induction (P := fun x => x.counts.blankLines = 0) rfl ?_
  intro m c r edited before fix
  rw [blankLines_add, before, fix.blankLines_eq_zero]

theorem editFrom_blankLines (s : Settings) (around : Surroundings) (d : List Line) :
    (s.editFrom around d).counts.blankLines = 0 := by
  induction d generalizing around with
  | nil => rfl
  | cons l rest ih => rw [editFrom_cons, blankLines_add, editLine_blankLines, ih]

/-- What becomes of a line on its own: it keeps its text, and an empty line stays empty. -/
structure Settings.Retains (s : Settings) (l l' : Line) : Prop where
  keeps : s.Keeps l l'
  empty : l = [] → l' = []

theorem editLine_retains (s : Settings) (around : Surroundings) (following : Option Line) (l : Line) :
    s.Retains l (s.editLine around following l).value := by
  refine ⟨editLine_keeps s around following l, ?_⟩
  rintro rfl
  rw [s.editLine_eq_pure fun r edited fix => fix.ne_nil rfl]
  rfl

theorem retains_refl (s : Settings) (l : Line) : s.Retains l l :=
  ⟨.of_eq rfl, id⟩

theorem retains_trans (l₁ l₂ l₃ : Line) (first : s.Retains l₁ l₂) (second : s.Retains l₂ l₃) :
    s.Retains l₁ l₃ :=
  ⟨first.keeps.trans second.keeps, second.empty ∘ first.empty⟩

theorem retains_nil (l : Line) (retains : s.Retains [] l) : l = [] :=
  retains.empty rfl

/-- Only two rules want gaps. -/
theorem gap_run_get (s : Settings) (around : Surroundings) (d : List Line) (noFence : r ≠ .fenceSpacing)
    (noList : r ≠ .listSpacing) : (s.gapLocalRule.run around d).counts.get r = 0 := by
  rw [gap_run_get_eq_zero_iff, everyLine_iff]
  intro before l after _ wanted
  obtain ⟨next, -, gap⟩ := Option.bind_eq_some_iff.mp wanted
  exact (gapRule?_spacing gap).elim noFence noList

/-- The gaps that are made widen lines by what is counted. -/
theorem gap_run_widened (s : Settings) (below : Bool) (around : Surroundings) (d : List Line) :
    Widened s.Retains below d (s.gapLocalRule.run around d).value
      (s.gapLocalRule.run around d).counts.blankLines := by
  induction d generalizing below around with
  | nil => exact .nil
  | cons l rest ih =>
    rw [LocalRule.run_cons, gapLocalRule_eq_blankFor, blankLines_add]
    cases wanted : rest.head?.bind (s.gapRule? around.inFence l) with
    | none =>
      rw [show (blankFor none).counts.blankLines = 0 from rfl, Nat.zero_add]
      exact .line (retains_refl s l) (ih true (around.past l))
    | some r =>
      obtain ⟨next, first, gap⟩ := Option.bind_eq_some_iff.mp wanted
      obtain ⟨others, rfl⟩ := List.head?_eq_some_iff.mp first
      have one : (blankFor (some r)).counts.blankLines = 1 := by
        rcases gapRule?_spacing gap with rfl | rfl <;> rfl
      rw [one, Nat.add_comm]
      exact .line (retains_refl s l) (.blank (ih true (around.past l)))

theorem round_widened (s : Settings) (d : Document) :
    Widened s.Retains false d (s.round d).value (s.round d).counts.blankLines := by
  have edits : Widened s.Retains false d (s.editLines d).value (s.editLines d).counts.blankLines := by
    rw [Settings.editLines, editFrom_blankLines]
    exact .of_forall₂ (editFrom_forall₂ {} fun around following l _ => editLine_retains s around following l)
  rw [round_value, round_counts, blankLines_add]
  exact edits.trans retains_trans retains_nil (gap_run_widened s false {} _)

/-! The signs of a document, line breaks left out. -/

theorem gap_run_gained (s : Settings) (around : Surroundings) (d : List Line) (c : Char) :
    s.gained (s.gapLocalRule.run around d).counts c = 0 := by
  have urls := gap_run_get s around d (r := .bareUrl) nofun nofun
  have headings := gap_run_get s around d (r := .boldHeading) nofun nofun
  change (s.gapLocalRule.run around d).counts.bareUrls = 0 at urls
  change (s.gapLocalRule.run around d).counts.boldHeadings = 0 at headings
  unfold Settings.gained
  rw [urls, headings, Nat.mul_zero, ite_self, ite_self]

section Signs
variable {c : Char} (sign : c ∈ signs)
include sign

theorem editFrom_count_sign (s : Settings) (around : Surroundings) (d : List Line) :
    (s.editFrom around d).value.flatten.count c =
      d.flatten.count c + s.gained (s.editFrom around d).counts c := by
  induction d generalizing around with
  | nil => rw [show s.editFrom around [] = pure [] from rfl, Counted.pure_counts, gained_zero]; rfl
  | cons l rest ih =>
    rw [editFrom_cons, List.flatten_cons, List.flatten_cons, List.count_append, List.count_append,
      editLine_count_sign s around rest.head? l sign, ih, gained_add]
    omega

theorem round_count_sign (s : Settings) (d : Document) :
    (s.round d).value.flatten.count c = d.flatten.count c + s.gained (s.round d).counts c := by
  rw [round_value, round_counts, flatten_gap_run,
    gained_add, gap_run_gained, Nat.add_zero]
  exact editFrom_count_sign sign s {} d

end Signs

end MarkdownTidy
