import MarkdownTidy.Proofs.Document.InsertedLines
import MarkdownTidy.Proofs.Line.StrayHeadings
import MarkdownTidy.Proofs.Rounds.TextRounds

namespace MarkdownTidy

/-- The stray spaces of a document, with those that promotions would leave in it. -/
def Settings.allStrays (s : Settings) (d : Document) : Nat :=
  (d.map s.strays).sum

variable {s : Settings}

theorem allStrays_cons (s : Settings) (l : Line) (rest : List Line) :
    s.allStrays (l :: rest) = s.strays l + s.allStrays rest := rfl

theorem allStrays_eq_countP (s : Settings) (d : Document) :
    s.allStrays d = d.countP Line.endsInOneSpace + d.countP s.leavesSpace := by
  induction d with
  | nil => rfl
  | cons l rest ih =>
    have here : s.strays l = (if l.endsInOneSpace then 1 else 0) + if s.leavesSpace l then 1 else 0 := by
      rw [Settings.strays]
      cases l.endsInOneSpace <;> cases s.leavesSpace l <;> rfl
    rw [allStrays_cons, ih, List.countP_cons, List.countP_cons]
    omega

theorem editFrom_strays (on : s.isEnabled .trailingSpaces = true) (around : Surroundings) (d : List Line) :
    (s.editFrom around d).counts.get .trailingSpaces = d.countP Line.endsInOneSpace ∧
      s.allStrays (s.editFrom around d).value ≤ d.countP s.leavesSpace := by
  induction d generalizing around with
  | nil => exact ⟨rfl, le_rfl⟩
  | cons l rest ih =>
    obtain ⟨count, left⟩ := editLine_strays on around rest.head? l
    obtain ⟨counts, others⟩ := ih (around.past (s.editLine around rest.head? l).value)
    rw [editFrom_cons, allStrays_cons, List.countP_cons, List.countP_cons]
    constructor
    · rw [Counts.get_add, count, counts, Nat.add_comm]
      cases l.endsInOneSpace <;> rfl
    · rw [Nat.add_comm]
      refine Nat.add_le_add others (left.trans_eq ?_)
      cases s.leavesSpace l <;> rfl

theorem gap_run_strays (s : Settings) (around : Surroundings) (d : List Line) :
    s.allStrays (s.gapLocalRule.run around d).value = s.allStrays d := by
  refine sum_map_gap_run s.strays ?_ s around d
  rw [Settings.strays, Settings.leavesSpace_of_plain rfl]
  rfl

/-- A round strips the stray spaces that there are, and leaves no others than promotions make. -/
theorem round_strays (on : s.isEnabled .trailingSpaces = true) (d : Document) :
    (s.round d).counts.get .trailingSpaces = d.countP Line.endsInOneSpace ∧
      s.allStrays (s.round d).value ≤ d.countP s.leavesSpace := by
  obtain ⟨count, left⟩ := editFrom_strays on {} d
  have none : (s.gapLocalRule.run {} (s.editLines d).value).counts.get .trailingSpaces = 0 :=
    gap_run_get s {} _ nofun nofun
  rw [round_value, round_counts, gap_run_strays, Counts.get_add, none]
  exact ⟨count, left⟩

/-- What is stripped in all rounds was in the document, or comes from promotions that were still to be made. -/
theorem rounds_strays (on : s.isEnabled .trailingSpaces = true) (n : Nat) (text : String) :
    (s.rounds n text).counts.get .trailingSpaces + s.allStrays (.ofText (s.rounds n text).value.toList) ≤
      s.allStrays (.ofText text.toList) := by
  refine rounds_induction (P := fun d c d' => c.get .trailingSpaces + s.allStrays d' ≤ s.allStrays d)
    ?_ ?_ ?_ n text
  · exact fun d => (Nat.zero_add _).le
  · intro d
    obtain ⟨count, left⟩ := round_strays on d
    rw [allStrays_eq_countP s d, count]
    exact Nat.add_le_add_left left _
  · intro d₁ d₂ d₃ c c' first later
    rw [Counts.get_add]
    omega

/-- The first round strips all stray spaces of the text. All others together strip no more than its promotions
leave. -/
theorem tidy_strays (on : s.isEnabled .trailingSpaces = true) (text : String) :
    ∃ later, (s.tidy text).counts.get .trailingSpaces =
        (Document.ofText text.toList).countP Line.endsInOneSpace + later ∧
      later + s.allStrays (.ofText (s.tidy text).content.toList) ≤
        (Document.ofText text.toList).countP s.leavesSpace := by
  obtain ⟨n, more⟩ := Nat.exists_eq_add_of_le' (le_max_left 1 s.maxRounds)
  obtain ⟨count, left⟩ := round_strays on (.ofText text.toList)
  rw [← ofText_roundText] at left
  rw [tidy_eq_rounds, more]
  refine ⟨(s.rounds n (s.roundText text).value).counts.get .trailingSpaces, ?_, ?_⟩
  · rw [← count]
    exact Counts.get_add _ _ _
  · exact (rounds_strays on n _).trans left

/-- If spaces are stripped, the lines are counted that end in a stray space, and if no promotion leaves one, no
others, and none is left. A promotion that does adds at most one to the count. -/
theorem stray_lines_are_counted (on : s.isEnabled .trailingSpaces = true) (text : String) :
    let d := Document.ofText text.toList
    let counted := (s.tidy text).counts.get .trailingSpaces
    ((∀ l ∈ d, s.leavesSpace l = false) → counted = d.countP Line.endsInOneSpace ∧
      ∀ l ∈ Document.ofText (s.tidy text).content.toList, l.endsInOneSpace = false) ∧
    d.countP Line.endsInOneSpace ≤ counted ∧
    counted ≤ d.countP Line.endsInOneSpace + d.countP s.leavesSpace := by
  intro d counted
  obtain ⟨later, count, left⟩ := tidy_strays on text
  change counted = d.countP Line.endsInOneSpace + later at count
  change later + _ ≤ d.countP s.leavesSpace at left
  refine ⟨fun keep => ?_, by omega, by omega⟩
  -- Where no promotion leaves a space, nothing is left for the later rounds.
  have promoted : d.countP s.leavesSpace = 0 := by
    rw [List.countP_eq_zero]
    exact fun l member => Bool.eq_false_iff.mp (keep l member)
  rw [allStrays_eq_countP] at left
  refine ⟨by omega, fun l member => ?_⟩
  have none : (Document.ofText (s.tidy text).content.toList).countP Line.endsInOneSpace = 0 := by omega
  exact Bool.eq_false_iff.mpr (List.countP_eq_zero.mp none l member)

theorem stray_lines_are_counted_once :
    let text := " \n**a: ** \n- b \n- c  "
    (Settings.isEnabled {} .trailingSpaces = true ∧
      ∀ l ∈ Document.ofText text.toList, Settings.leavesSpace {} l = false) ∧
      (Settings.tidy {} text).counts.get .trailingSpaces = 3 := by
  intro text
  have keep : ∀ l ∈ Document.ofText text.toList, Settings.leavesSpace {} l = false := by decide +kernel
  refine ⟨⟨rfl, keep⟩, ?_⟩
  rw [((stray_lines_are_counted rfl text).1 keep).1]
  decide +kernel

/-- A space right before the colons of a title stands at the end of its heading, and is counted too. -/
theorem space_before_colon_is_counted :
    ¬∀ (s : Settings) (text : String), s.isEnabled .trailingSpaces = true →
      (s.tidy text).counts.get .trailingSpaces = (Document.ofText text.toList).countP Line.endsInOneSpace := by
  intro counted
  have none := counted {} "\n**Note :**" rfl
  revert none
  decide +kernel

end MarkdownTidy
