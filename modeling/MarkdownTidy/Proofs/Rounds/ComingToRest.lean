import MarkdownTidy.Proofs.Document.RoundChances
import MarkdownTidy.Proofs.Rounds.ThreeRounds

namespace MarkdownTidy
variable {s : Settings} {text : String}

theorem spaced_roundText (s : Settings) (text : String) :
    s.Spaced {} (Document.ofText (s.roundText text).value.toList) := by
  rw [ofText_roundText]
  exact spaced_round s _

/-- Where all gaps are made, there are no more rounds that change anything than there are chances. -/
theorem exists_fixed_rounds (spaced : s.Spaced {} (Document.ofText text.toList)) :
    ∃ n ≤ (Document.ofText text.toList).chances,
      s.roundText (s.rounds n text).value = pure (s.rounds n text).value := by
  induction bound : (Document.ofText text.toList).chances using Nat.strong_induction_on generalizing text with
  | _ chances ih =>
    rcases round_rests_or_lowers spaced with rests | lower
    · have same : (s.roundText text).value = text :=
        roundText_value_eq_iff.mpr (congrArg Counted.value rests)
      exact ⟨0, Nat.zero_le _, roundText_eq_pure same⟩
    · rw [← ofText_roundText, bound] at lower
      obtain ⟨n, few, fixed⟩ := ih _ lower (spaced_roundText s text) rfl
      exact ⟨n + 1, by omega, fixed⟩

/-- Rounds come to rest, whatever the settings are: after five rounds for each line and one more no round
changes the text. -/
theorem rounds_come_to_rest (s : Settings) (text : String) :
    ∃ n ≤ 5 * (Document.ofText text.toList).length + 1, ∀ k, s.rounds (n + k) text = s.rounds n text := by
  have less := round_chances_le s (.ofText text.toList)
  rw [← ofText_roundText] at less
  have most := chances_le_five_mul_length (Document.ofText text.toList)
  -- The first round is for the gaps. From then on every round that changes the text takes a chance from it.
  obtain ⟨n, few, fixed⟩ := exists_fixed_rounds (spaced_roundText s text)
  refine ⟨n + 1, by omega, fun k => ?_⟩
  have rest : s.rounds k (s.rounds (n + 1) text).value = pure (s.rounds (n + 1) text).value :=
    rounds_eq_pure fixed k
  rw [rounds_add, Counted.bind_congr_value (g := pure) rest, bind_pure]

/-- Where a heading has no number sign, a promoted line can be an item, and three rounds do not suffice. -/
example :
    (Settings.rounds { headingLevel := 0 } 3 "\n**- a**\n**- b**\n**- c**\n**- d**").value ≠
      (Settings.rounds { headingLevel := 0 } 4 "\n**- a**\n**- b**\n**- c**\n**- d**").value := by
  decide +kernel

end MarkdownTidy
