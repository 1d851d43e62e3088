import MarkdownTidy.Proofs.Rounds.TextRounds

namespace MarkdownTidy
variable {s : Settings} {d : Document}

/-- Wherever the line stands, no stray space is taken from it, unless it is a heading. -/
def NearlyStripped (s : Settings) (l : Line) : Prop :=
  ∀ around following, LineRests s around following .trailingSpaces l ∨ l.head? = some '#'

theorem NearlyRests.nearlyStripped {around : Surroundings} {following : Option Line} {l : Line}
    (nearly : NearlyRests s around following l) : NearlyStripped s l := by
  intro around' following'
  exact nearly.stray.imp_left fun rests => rests.strip_anywhere around' following'

theorem nearlyStripped_editLines (positive : 1 ≤ s.headingLevel) (d : Document) :
    ∀ l ∈ (s.editLines d).value, NearlyStripped s l :=
  forall_mem_editFrom {} fun _ _ _ _ => (editLine_nearlyRests positive).nearlyStripped

theorem nearlyStripped_round (positive : 1 ≤ s.headingLevel) (d : Document) :
    ∀ l ∈ (s.round d).value, NearlyStripped s l := by
  rw [round_value]
  intro l member
  rcases mem_gap_run member with edited | rfl
  · exact nearlyStripped_editLines positive d l edited
  · intro around following
    refine Or.inl fun edited fix => ?_
    cases fix with
    | strip _ stray => exact Bool.noConfusion stray

theorem spaced_round (s : Settings) (d : Document) : s.Spaced {} (s.round d).value := by
  rw [round_value]
  exact gap_run_spaced s {} _

/-- When all gaps are there, edits make no other gap wanted. -/
theorem spaced_editLines (positive : 1 ≤ s.headingLevel) (nearly : ∀ l ∈ d, NearlyStripped s l)
    (spaced : s.Spaced {} d) : s.Spaced {} (s.editLines d).value := by
  have stand := editFrom_forall₂ (s := s) (R := Line.StandsFor) {}
    fun around following l member => editLine_standsFor positive (nearly l member around following)
  exact spaced.standsFor stand

theorem round_eq_editLines (spaced : s.Spaced {} (s.editLines d).value) : s.round d = s.editLines d := by
  refine Counted.ext_parts ?_ ?_
  · rw [round_value, spaced.run_eq]
    rfl
  · rw [round_counts, spaced.run_eq]
    exact Counts.add_zero _

/-- A document in which no rule has anything to fix. -/
structure Quiet (s : Settings) (d : Document) : Prop where
  rests : EveryLine (fun around following l => ∀ r, LineRests s around following r l) {} d
  spaced : s.Spaced {} d

theorem Quiet.round_eq_pure (positive : 1 ≤ s.headingLevel) (quiet : Quiet s d) : s.round d = pure d := by
  have edits : s.editLines d = pure d := by
    rw [Settings.editLines, editFrom_eq_run positive]
    refine LocalRule.run_eq_pure (EveryLine.imp quiet.rests ?_)
    intro around following l rests
    rw [Settings.lineRule, Settings.editLine_eq_pure rests]
    rfl
  rw [round_of_rest edits]
  exact quiet.spaced.run_eq

/-- The first round makes all gaps, the second leaves nothing but stray spaces at the ends of headings,
and the third strips those. -/
theorem quiet_third_round (positive : 1 ≤ s.headingLevel) (d : Document) :
    Quiet s (s.round (s.round (s.round d).value).value).value := by
  have nearly₁ := nearlyStripped_round positive d
  have spaced₂ := spaced_editLines positive nearly₁ (spaced_round s d)
  have nearly₂ := nearlyStripped_editLines positive (s.round d).value
  have spaced₃ := spaced_editLines positive nearly₂ spaced₂
  rw [round_eq_editLines spaced₂, round_eq_editLines spaced₃]
  have anywhere : EveryLine (fun _ _ _ => True) {} (s.round d).value :=
    everyLine_iff.mpr fun _ _ _ _ => trivial
  have rests₂ : EveryLine (NearlyRests s) {} (s.editLines (s.round d).value).value := by
    refine everyLine_editFrom positive ?_ anywhere
    intro around following following' l same _
    exact (editLine_nearlyRests positive).of_following same
  refine ⟨everyLine_editFrom positive ?_ rests₂, spaced₃⟩
  intro around following following' l same nearly r
  exact (nearly.editLine_rests r).of_following same

theorem quiet_rounds_three (positive : 1 ≤ s.headingLevel) (text : String) :
    Quiet s (.ofText (s.rounds 3 text).value.toList) := by
  have quiet := quiet_third_round positive (.ofText text.toList)
  rw [← ofText_roundText, ← ofText_roundText, ← ofText_roundText] at quiet
  exact quiet

theorem rounds_three_fixed (positive : 1 ≤ s.headingLevel) (text : String) :
    s.roundText (s.rounds 3 text).value = pure (s.rounds 3 text).value := by
  refine roundText_eq_pure (roundText_value_eq_iff.mpr ?_)
  rw [(quiet_rounds_three positive text).round_eq_pure positive]
  rfl

theorem content_eq_rounds_three (positive : 1 ≤ s.headingLevel) (enough : 3 ≤ s.maxRounds) (text : String) :
    (s.tidy text).content = (s.rounds 3 text).value := by
  have more : max 1 s.maxRounds = 3 + (s.maxRounds - 3) := by omega
  have fixed := rounds_three_fixed positive text
  rw [tidy_eq_rounds, more, rounds_add, Counted.bind_value, rounds_eq_pure fixed]
  rfl

/-- From any text, three rounds lead to one that no further round changes. Tidying with a cap of three
rounds or more is idempotent. -/
theorem tidy_settles_in_three_rounds (s : Settings) (text : String) (positive : 1 ≤ s.headingLevel) :
    s.roundText (s.rounds 3 text).value = pure (s.rounds 3 text).value ∧
      (3 ≤ s.maxRounds → s.tidy (s.tidy text).content = ⟨(s.tidy text).content, 0⟩) := by
  have fixed := rounds_three_fixed positive text
  refine ⟨fixed, fun enough => ?_⟩
  have again := rounds_eq_pure fixed (max 1 s.maxRounds)
  rw [content_eq_rounds_three positive enough, tidy_eq_rounds, again]
  rfl

theorem tidy_settles_for_defaults :
    (1 ≤ ({} : Settings).headingLevel ∧ 3 ≤ ({} : Settings).maxRounds) ∧
      Settings.tidy {} (Settings.tidy {} "- a \n**Next** \n```\nhttp://b").content =
        ⟨(Settings.tidy {} "- a \n**Next** \n```\nhttp://b").content, 0⟩ :=
  ⟨by decide, (tidy_settles_in_three_rounds {} _ (by decide)).2 (by decide)⟩

end MarkdownTidy
