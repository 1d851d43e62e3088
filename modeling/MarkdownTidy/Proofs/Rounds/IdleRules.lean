import MarkdownTidy.Proofs.Document.InsertedLines
import MarkdownTidy.Proofs.Line.SameEdits
import MarkdownTidy.Proofs.Rounds.TextRounds

namespace MarkdownTidy
variable {s s' : Settings} {around : Surroundings} {following : Option Line} {l next : Line} {r q : Rule}
  {edited : Edited} {x : Counted Line} {d : Document}

theorem LineFix.isEnabled (fix : LineFix s around following l r edited) : s.isEnabled r = true := by
  cases fix with
  | strip on => exact on
  | promote on => exact on
  | tag on => exact on
  | wrap on => exact on

theorem gapRule?_isEnabled {inFence : Bool} (wanted : s.gapRule? inFence l next = some r) :
    s.isEnabled r = true := by
  unfold Settings.gapRule? at wanted
  grind

/-! No fix is counted for a rule that is off. -/

/-- The fixes are counted for enabled rules only. -/
def Settings.Makes (s : Settings) (c : Counts) : Prop :=
  ∀ r, s.isEnabled r = false → c.get r = 0

theorem makes_zero (s : Settings) : s.Makes 0 :=
  fun r _ => Counts.get_zero r

theorem makes_single (on : s.isEnabled r = true) (n : Nat) : s.Makes (.single r n) := by
  intro q off
  rw [Counts.get_single]
  refine if_neg ?_
  rintro rfl
  exact Bool.noConfusion (off.symm.trans on)

theorem Settings.Makes.add {a b : Counts} (first : s.Makes a) (second : s.Makes b) : s.Makes (a + b) := by
  intro r off
  rw [Counts.get_add, first r off, second r off]

theorem editFrom_makes (s : Settings) (around : Surroundings) (d : List Line) :
    s.Makes (s.editFrom around d).counts := by
  induction d generalizing around with
  | nil => exact makes_zero s
  | cons l rest ih =>
    have here : s.Makes (s.editLine around rest.head? l).counts :=
      s.editLine_induction (P := fun x => s.Makes x.counts) (makes_zero s)
        fun before fix => before.add (makes_single fix.isEnabled _)
    rw [editFrom_cons]
    exact here.add (ih _)

theorem gap_run_makes (s : Settings) (around : Surroundings) (d : List Line) :
    s.Makes (s.gapLocalRule.run around d).counts := by
  intro r off
  rw [gap_run_get_eq_zero_iff, everyLine_iff]
  intro before l after _ wanted
  obtain ⟨next, -, gap⟩ := Option.bind_eq_some_iff.mp wanted
  exact Bool.noConfusion (off.symm.trans (gapRule?_isEnabled gap))

theorem round_makes (s : Settings) (d : Document) : s.Makes (s.round d).counts := by
  rw [round_counts]
  exact (editFrom_makes s {} d).add (gap_run_makes s {} _)

theorem rounds_makes (s : Settings) (n : Nat) (text : String) : s.Makes (s.rounds n text).counts :=
  rounds_induction (P := fun _ c _ => s.Makes c) (fun _ => makes_zero s) (round_makes s) .add n text

/-! A rule for which no fix is counted may as well be off. -/

/-- Which rules are on matters to a fix only as far as its own rule goes. -/
theorem LineFix.of_settings (fix : LineFix s around following l r edited) (on : s'.isEnabled r = true)
    (tracking : s'.tracking = s.tracking) (level : s'.headingLevel = s.headingLevel) :
    LineFix s' around following l r edited := by
  cases fix with
  | strip _ stray => exact .strip on stray
  | promote _ afterBlank bold =>
    rw [← level]
    exact .promote on afterBlank bold
  | tag _ tags bare follows =>
    rw [← tracking] at tags
    exact .tag on tags bare follows
  | wrap _ found => exact .wrap on found

theorem lineFix_withRule (other : q ≠ r) (on : Bool) :
    LineFix (s.withRule r on) around following l q edited ↔ LineFix s around following l q edited := by
  have same : (s.withRule r on).isEnabled q = s.isEnabled q := by
    rw [Settings.isEnabled_withRule, if_neg other]
  constructor
  · intro fix
    exact fix.of_settings (same.symm.trans fix.isEnabled) rfl rfl
  · intro fix
    exact fix.of_settings (same.trans fix.isEnabled) rfl rfl

theorem Turn.withRule (turn : Turn s around following q l x) (idle : x.counts.get r = 0) :
    Turn (s.withRule r false) around following q l x := by
  by_cases same : q = r
  · subst q
    cases turn with
    | fixed fix =>
      have some := fix.fixes_pos
      rw [Counts.get_single, if_pos rfl] at idle
      omega
    | rested =>
      refine .rested fun edited fix => ?_
      have on := fix.isEnabled
      rw [Settings.isEnabled_withRule, if_pos rfl] at on
      contradiction
  · exact turn.congr fun _ => (lineFix_withRule same false).symm

theorem editLine_withRule (idle : (s.editLine around following l).counts.get r = 0) :
    (s.withRule r false).editLine around following l = s.editLine around following l := by
  obtain ⟨x₁, x₂, x₃, x₄, turn₁, turn₂, turn₃, turn₄, whole⟩ := s.editLine_turns around following l
  rw [whole] at idle ⊢
  simp only [Counts.get_add, Nat.add_eq_zero_iff] at idle
  obtain ⟨idle₁, idle₂, idle₃, idle₄⟩ := idle
  exact Settings.editLine_of_turns (turn₁.withRule idle₁) (turn₂.withRule idle₂) (turn₃.withRule idle₃)
    (turn₄.withRule idle₄)

theorem editFrom_withRule (idle : (s.editFrom around d).counts.get r = 0) :
    (s.withRule r false).editFrom around d = s.editFrom around d := by
  induction d generalizing around with
  | nil => rfl
  | cons l rest ih =>
    rw [editFrom_cons, Counts.get_add, Nat.add_eq_zero_iff] at idle
    rw [editFrom_cons, editFrom_cons, editLine_withRule idle.1, ih idle.2]

/-- Between a list and a fence the two spacing rules share a gap, which is the list's as long as its rule
is on. -/
theorem gapRule?_withRule {inFence : Bool} (idle : s.gapRule? inFence l next ≠ some r) :
    (s.withRule r false).gapRule? inFence l next = s.gapRule? inFence l next := by
  have excluded := Line.isFenceMarker_excludes (l := next)
  unfold Settings.gapRule? at idle ⊢
  simp only [Settings.isEnabled_withRule]
  cases r <;> grind

theorem gap_run_withRule (idle : (s.gapLocalRule.run around d).counts.get r = 0) :
    (s.withRule r false).gapLocalRule.run around d = s.gapLocalRule.run around d := by
  refine LocalRule.run_congr ((gap_run_get_eq_zero_iff.mp idle).imp ?_)
  intro around following l other
  cases following with
  | none => rfl
  | some next =>
    rw [Option.bind_some] at other
    rw [gapLocalRule_eq_blankFor, gapLocalRule_eq_blankFor, Option.bind_some, Option.bind_some,
      gapRule?_withRule other]

theorem round_withRule (idle : (s.round d).counts.get r = 0) :
    (s.withRule r false).round d = s.round d := by
  rw [round_counts, Counts.get_add, Nat.add_eq_zero_iff] at idle
  have edits : (s.withRule r false).editLines d = s.editLines d := editFrom_withRule idle.1
  have gaps : (s.withRule r false).spaceOut (s.editLines d).value = s.spaceOut (s.editLines d).value := by
    rw [spaceOut_eq_run, spaceOut_eq_run, gap_run_withRule idle.2]
  rw [Settings.round, Settings.round, edits]
  exact Counted.bind_congr_value gaps

theorem rounds_withRule (n : Nat) (text : String) (idle : (s.rounds n text).counts.get r = 0) :
    (s.withRule r false).rounds n text = s.rounds n text := by
  induction n generalizing text with
  | zero => rfl
  | succ n ih =>
    rw [Settings.rounds, Counted.bind_counts, Counts.get_add, Nat.add_eq_zero_iff] at idle
    have first : (s.withRule r false).roundText text = s.roundText text := by
      rw [Settings.roundText, Settings.roundText, round_withRule idle.1]
    rw [Settings.rounds, Settings.rounds, first]
    exact Counted.bind_congr_value (ih (s.roundText text).value idle.2)

/-- Rules that do not fire do not matter: none fires while it is off, and to turn off one that did not
fire changes neither the tidied text nor any of the counts. -/
theorem idle_rules_do_not_matter (s : Settings) (r : Rule) (text : String) :
    (s.isEnabled r = false → (s.tidy text).counts.get r = 0) ∧
      ((s.tidy text).counts.get r = 0 → (s.withRule r false).tidy text = s.tidy text) := by
  rw [tidy_eq_rounds, tidy_eq_rounds]
  refine ⟨rounds_makes s _ text r, fun idle => ?_⟩
  have same := rounds_withRule _ text idle
  exact congr (congrArg Tidied.mk (congrArg Counted.value same)) (congrArg Counted.counts same)

theorem idle_rules_do_not_matter_between_list_and_fence :
    let off := Settings.withRule {} .fenceSpacing false
    let text := "- a\n```\n$ b\n```"
    (off.isEnabled .fenceSpacing = false ∧ (off.tidy text).counts.get .fenceSpacing = 0) ∧
      (Settings.tidy {} text).counts.get .fenceSpacing = 0 ∧ off.tidy text = Settings.tidy {} text := by
  intro off text
  have disabled : off.isEnabled .fenceSpacing = false := rfl
  have idle : (Settings.tidy {} text).counts.get .fenceSpacing = 0 := by decide +kernel
  exact ⟨⟨disabled, (idle_rules_do_not_matter off .fenceSpacing text).1 disabled⟩, idle,
    (idle_rules_do_not_matter {} .fenceSpacing text).2 idle⟩

end MarkdownTidy
