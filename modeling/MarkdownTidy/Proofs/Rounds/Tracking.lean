import MarkdownTidy.Proofs.Document.ClosingFences
import MarkdownTidy.Proofs.Rounds.FenceTags
import MarkdownTidy.Proofs.Rounds.IdleRules

namespace MarkdownTidy

/-- Whether the fence is left bare only where parity is tracked: a line follows it, and it closes a
block. -/
def Fence.IsPassedOver (f : Fence) : Prop :=
  f.marker.isBareFence = true ∧ f.following.isSome = true ∧ Even f.number

instance : DecidablePred Fence.IsPassedOver :=
  fun _ => inferInstanceAs (Decidable (_ ∧ _ ∧ _))

variable {s : Settings} {d d' : Document} {text text' : String}

theorem countP_isTagged_adjacency (fences : List Fence) :
    fences.countP (·.IsTagged .adjacency) =
      fences.countP (·.IsTagged .parity) + fences.countP (·.IsPassedOver) := by
  have opening (f : Fence) : f.IsTagged .adjacency ∧ Odd f.number ↔ f.IsTagged .parity := by
    simp [Fence.IsTagged, and_assoc]
  have closing (f : Fence) : f.IsTagged .adjacency ∧ ¬Odd f.number ↔ f.IsPassedOver := by
    simp [Fence.IsTagged, Fence.IsPassedOver, and_assoc]
  rw [List.countP_eq_countP_filter_add fences _ fun f => decide (Odd f.number), List.countP_filter,
    List.countP_filter]
  simp only [← Bool.decide_and, ← decide_not, opening, closing]

theorem UpToClosings.round (positive : 1 ≤ s.headingLevel) (alike : UpToClosings s false d d') :
    let left := (s.withTracking .parity).round d
    let tagged := (s.withTracking .adjacency).round d'
    UpToClosings s false left.value tagged.value ∧
      Counts.AgreeBut .fenceLanguage left.counts tagged.counts := by
  have outside : ({} : Surroundings).inFence = false := rfl
  obtain ⟨edited, edits⟩ := alike.editFrom positive outside
  obtain ⟨spaced, gaps⟩ := edited.gap_run outside outside
  simp only [round_value, round_counts]
  exact ⟨spaced, edits.add (.of_eq gaps)⟩

/-- The two ways of tracking, followed through all rounds. -/
theorem rounds_upToClosings (positive : 1 ≤ s.headingLevel) (n : Nat)
    (alike : UpToClosings s false (Document.ofText text.toList) (Document.ofText text'.toList)) :
    let left := (s.withTracking .parity).rounds n text
    let tagged := (s.withTracking .adjacency).rounds n text'
    UpToClosings s false (Document.ofText left.value.toList) (Document.ofText tagged.value.toList) ∧
      Counts.AgreeBut .fenceLanguage left.counts tagged.counts := by
  induction n generalizing text text' with
  | zero => exact ⟨alike, .of_eq rfl⟩
  | succ n ih =>
    obtain ⟨first, counts⟩ := alike.round positive
    rw [← ofText_roundText, ← ofText_roundText] at first
    obtain ⟨later, counts'⟩ := ih first
    exact ⟨later, counts.add counts'⟩

theorem rounds_fenceLanguages (positive : 1 ≤ s.headingLevel) (n : Nat) (text : String) :
    ((s.withTracking .adjacency).rounds (n + 1) text).counts.fenceLanguages =
      ((s.withTracking .parity).rounds (n + 1) text).counts.fenceLanguages +
        if s.isEnabled .fenceLanguage then (Document.ofText text.toList).fences.countP (·.IsPassedOver)
        else 0 := by
  cases on : s.isEnabled .fenceLanguage with
  | true =>
    have tags tracking := (rounds_tags (s := s.withTracking tracking) positive on n text).2
    rw [tags, tags, if_pos rfl]
    exact countP_isTagged_adjacency _
  | false =>
    have none tracking := rounds_makes (s.withTracking tracking) (n + 1) text .fenceLanguage on
    exact (none .adjacency).trans (none .parity).symm

/-- How fences are tracked matters to those that close a block, and to nothing else. The same number of lines
comes out, which agree but for closing fences that are bare with their parity tracked and name a language
without. The same fixes are counted, except for the tags of those fences. -/
theorem tracking_matters_at_closing_fences (s : Settings) (text : String) (positive : 1 ≤ s.headingLevel) :
    let left := (s.withTracking .parity).tidy text
    let tagged := (s.withTracking .adjacency).tidy text
    let leftLines := Document.ofText left.content.toList
    let taggedLines := Document.ofText tagged.content.toList
    taggedLines.length = leftLines.length ∧
      List.Forall₂ Site.AgreesWith leftLines.sites taggedLines.sites ∧
      Counts.AgreeBut .fenceLanguage left.counts tagged.counts ∧
      tagged.counts.fenceLanguages = left.counts.fenceLanguages +
        if s.isEnabled .fenceLanguage then (Document.ofText text.toList).fences.countP (·.IsPassedOver)
        else 0 := by
  have more tracking : max 1 (s.withTracking tracking).maxRounds = s.maxRounds - 1 + 1 := by
    change max 1 s.maxRounds = _
    omega
  have start := UpToClosings.refl s false (Document.ofText text.toList)
  obtain ⟨lines, counts⟩ := rounds_upToClosings positive (s.maxRounds - 1 + 1) start
  have tags := rounds_fenceLanguages positive (s.maxRounds - 1) text
  simp only [tidy_eq_rounds, more]
  exact ⟨lines.length_eq, lines.sites [] [] rfl, counts, tags⟩

theorem closing_fence_is_tagged_without_parity :
    let text := "```\n- a \n``` \nb\n```"
    let left := (Settings.withTracking {} .parity).tidy text
    let tagged := (Settings.withTracking {} .adjacency).tidy text
    1 ≤ ({} : Settings).headingLevel ∧
      List.Forall₂ Site.AgreesWith (Document.ofText left.content.toList).sites
        (Document.ofText tagged.content.toList).sites ∧
      tagged.counts.fenceLanguages = left.counts.fenceLanguages + 1 := by
  obtain ⟨-, lines, -, tags⟩ :=
    tracking_matters_at_closing_fences {} "```\n- a \n``` \nb\n```" (by decide)
  exact ⟨by decide, lines, tags.trans (congrArg _ (by decide))⟩

end MarkdownTidy
