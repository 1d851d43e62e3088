import MarkdownTidy.Proofs.Rounds.FencedBlocks

namespace MarkdownTidy
variable {s : Settings}

theorem roundText_rests (positive : 1 ≤ s.headingLevel) (text : String) :
    ∀ f ∈ (Document.ofText (s.roundText text).value.toList).fences, s.FenceRests f := by
  have rests := (roundText_fences positive text).imp fun f f' edits =>
    And.intro (Fence.Becomes.rests positive edits) trivial
  exact ((List.forall₂_and_left _ _).mp rests.flip).1

/-- Once the fence markers rest, rounds leave them as they are and tag none. -/
theorem rounds_tags_rest (positive : 1 ≤ s.headingLevel) (on : s.isEnabled .fenceLanguage = true) (n : Nat)
    (text : String) (rest : ∀ f ∈ (Document.ofText text.toList).fences, s.FenceRests f) :
    List.Forall₂ (fun f f' => f'.number = f.number ∧ f'.marker = f.marker)
        (Document.ofText text.toList).fences (Document.ofText (s.rounds n text).value.toList).fences ∧
      (s.rounds n text).counts.fenceLanguages = 0 := by
  induction n generalizing text with
  | zero => exact ⟨List.forall₂_same.mpr fun _ _ => ⟨rfl, rfl⟩, rfl⟩
  | succ n ih =>
    have first := (List.forall₂_and_left _ _).mpr ⟨rest, roundText_fences positive text⟩
    obtain ⟨later, none⟩ := ih (s.roundText text).value (roundText_rests positive text)
    refine ⟨forall₂_trans ?_ first later, ?_⟩
    · rintro f₁ f₂ f₃ ⟨rests, edits⟩ ⟨number, marker⟩
      exact ⟨number.trans edits.number, marker.trans (rests.marker_eq edits.marker)⟩
    · have tags : (s.roundText text).counts.fenceLanguages = 0 := by
        refine (round_tags positive on (.ofText text.toList)).trans (List.countP_eq_zero.mpr ?_)
        intro f member tagged
        have rests := rest f member ⟨false, decide (Even f.number)⟩ rfl .fenceLanguage
        exact Fence.not_isTagged_of_rests on rfl rests (of_decide_eq_true tagged)
      change (s.roundText text).counts.fenceLanguages + (s.rounds n (s.roundText text).value).counts.fenceLanguages = 0
      rw [tags, none]

theorem rounds_tags (positive : 1 ≤ s.headingLevel) (on : s.isEnabled .fenceLanguage = true) (n : Nat)
    (text : String) :
    List.Forall₂ (fun f f' => f'.number = f.number ∧ s.TagsFence f f'.marker)
        (Document.ofText text.toList).fences
        (Document.ofText (s.rounds (n + 1) text).value.toList).fences ∧
      (s.rounds (n + 1) text).counts.fenceLanguages =
        (Document.ofText text.toList).fences.countP (·.IsTagged s.tracking) := by
  obtain ⟨later, none⟩ := rounds_tags_rest positive on n _ (roundText_rests positive text)
  refine ⟨forall₂_trans ?_ (roundText_fences positive text) later, ?_⟩
  · rintro f₁ f₂ f₃ edits ⟨number, marker⟩
    refine ⟨number.trans edits.number, ?_⟩
    rw [marker]
    exact edits.marker.tagsFence on
  · change (s.roundText text).counts.fenceLanguages +
      (s.rounds n (s.roundText text).value).counts.fenceLanguages = _
    rw [none, Nat.add_zero]
    exact round_tags positive on (.ofText text.toList)

/-- The fence markers stay. Those that are to be tagged get the language of the line below them, as it was
in the text, the other bare ones stay bare, and one that names a language keeps it. The fences to be
tagged are counted. -/
theorem fences_are_tagged (s : Settings) (text : String) (positive : 1 ≤ s.headingLevel)
    (on : s.isEnabled .fenceLanguage = true) :
    let old := Document.ofText text.toList
    let new := Document.ofText (s.tidy text).content.toList
    fenceMarkers new = fenceMarkers old ∧
      List.Forall₂ (fun f f' => f'.number = f.number ∧ s.TagsFence f f'.marker) old.fences new.fences ∧
      (s.tidy text).counts.fenceLanguages = old.fences.countP (·.IsTagged s.tracking) := by
  intro old new
  have more : max 1 s.maxRounds = s.maxRounds - 1 + 1 := by omega
  have tags : List.Forall₂ (fun f f' => f'.number = f.number ∧ s.TagsFence f f'.marker) old.fences
        new.fences ∧ (s.tidy text).counts.fenceLanguages = old.fences.countP (·.IsTagged s.tracking) := by
    change List.Forall₂ _ _ (Document.ofText (s.tidy text).content.toList).fences ∧ _
    rw [tidy_eq_rounds, more]
    exact rounds_tags positive on (s.maxRounds - 1) text
  exact ⟨fenceMarkers_eq tags.1, tags⟩

theorem fences_are_tagged_by_parity :
    let s := Settings.withTracking {} .parity
    let text := "- a\n```\nGET / \n``` \n```http://b \n```"
    (1 ≤ s.headingLevel ∧ s.isEnabled .fenceLanguage = true) ∧
      List.Forall₂ (fun f f' => f'.number = f.number ∧ s.TagsFence f f'.marker)
        (Document.ofText text.toList).fences (Document.ofText (s.tidy text).content.toList).fences ∧
      (s.tidy text).counts.fenceLanguages =
        (Document.ofText text.toList).fences.countP (·.IsTagged .parity) :=
  ⟨by decide, (fences_are_tagged (Settings.withTracking {} .parity) _ (by decide) (by decide)).2⟩

end MarkdownTidy
