import MarkdownTidy.Proofs.Document.FenceParity
import MarkdownTidy.Proofs.Rounds.ThreeRounds

namespace MarkdownTidy

/-- What a rule asks of a document. A fence marker with an even number of markers before it opens a
block, and one with an odd number closes it. -/
def Rule.HoldsIn (tracking : FenceTracking) (d : Document) : Rule → Prop
  | .trailingSpaces => ∀ l ∈ d, l.endsInOneSpace = false
  | .boldHeading => ∀ before blank l after, d = before ++ blank :: l :: after →
      blank.isBlank = true → l.isBoldTitle = false
  | .fenceLanguage => ∀ before l after, d = before ++ l :: after → l.isBareFence = true →
      after = [] ∨ tracking = .parity ∧ Odd (fenceMarkers before)
  | .bareUrl => ∀ l ∈ d, l.hasHttpLink = false → ¬"<http".toList <:+: l →
      ∀ front rest, l = front ++ rest → Url.read? front.getLast? rest = none
  | .fenceSpacing => ∀ before l after, d = before ++ l :: after → l.isFenceMarker = true →
      (Even (fenceMarkers before) → ∀ previous ∈ before.getLast?, previous.isBlank = true) ∧
        (Odd (fenceMarkers before) → ∀ next ∈ after.head?, next.isBlank = true)
  | .listSpacing => ∀ before l after, d = before ++ l :: after → l.isListItem = true →
      Even (fenceMarkers before) →
      (∀ previous ∈ before.getLast?, previous.isBlank = true ∨ previous.isListItem = true) ∧
        ∀ next ∈ after.head?, next.isBlank = true ∨ next.isListItem = true ∨ next.isHeadingOrBreak = true

variable {s : Settings} {d : Document} {before after : List Line} {l next previous : Line}

namespace Quiet

theorem lineRests (quiet : Quiet s d) (parts : d = before ++ l :: after) (r : Rule) :
    LineRests s (Surroundings.below before) after.head? r l :=
  everyLine_iff.mp quiet.rests before l after parts r

theorem noGap (quiet : Quiet s d) (parts : d = before ++ l :: next :: after) :
    s.gapRule? (Surroundings.below before).inFence l next = none :=
  everyLine_iff.mp quiet.spaced before l (next :: after) parts

theorem noGap_above (quiet : Quiet s d) (parts : d = before ++ l :: after)
    (last : previous ∈ before.getLast?) (even : Even (fenceMarkers before)) :
    s.gapRule? previous.isFenceMarker previous l = none := by
  obtain ⟨earlier, rfl⟩ := List.getLast?_eq_some_iff.mp last
  have none := quiet.noGap (parts.trans (List.append_assoc earlier [previous] (l :: after)))
  rwa [inFence_snoc even] at none

theorem noGap_below (quiet : Quiet s d) (parts : d = before ++ l :: after) (first : next ∈ after.head?) :
    s.gapRule? (Surroundings.below before).inFence l next = none := by
  obtain ⟨later, rfl⟩ := List.head?_eq_some_iff.mp first
  exact quiet.noGap parts

variable (quiet : Quiet s d)
include quiet

theorem trailingSpaces (on : s.isEnabled .trailingSpaces = true) :
    Rule.trailingSpaces.HoldsIn s.tracking d := by
  intro l member
  obtain ⟨before, after, parts⟩ := List.append_of_mem member
  rw [← Bool.not_eq_true]
  intro stray
  exact quiet.lineRests parts _ _ (.strip on stray)

theorem boldHeading (on : s.isEnabled .boldHeading = true) : Rule.boldHeading.HoldsIn s.tracking d := by
  intro before blank l after parts isBlank
  rw [List.append_cons] at parts
  have rests := quiet.lineRests parts .boldHeading
  rw [Surroundings.below, List.foldl_append] at rests
  rw [← Bool.not_eq_true]
  intro bold
  exact rests _ (.promote on isBlank bold)

theorem fenceLanguage (on : s.isEnabled .fenceLanguage = true) :
    Rule.fenceLanguage.HoldsIn s.tracking d := by
  intro before l after parts bare
  have rests := quiet.lineRests parts .fenceLanguage
  cases after with
  | nil => exact Or.inl rfl
  | cons next others =>
    have untagged : s.tracking.tags (Surroundings.below before) = false := by
      rw [← Bool.not_eq_true]
      intro tags
      exact rests _ (.tag on tags bare rfl)
    right
    cases tracking : s.tracking with
    | adjacency =>
      rw [tracking] at untagged
      exact Bool.noConfusion untagged
    | parity =>
      refine ⟨rfl, ?_⟩
      by_contra even
      have outside := inFence_of_even (Nat.not_odd_iff_even.mp even)
      rw [tracking, FenceTracking.tags, outside] at untagged
      exact Bool.noConfusion untagged

theorem bareUrl (on : s.isEnabled .bareUrl = true) : Rule.bareUrl.HoldsIn s.tracking d := by
  intro l member noLink noAutolink
  obtain ⟨before, after, parts⟩ := List.append_of_mem member
  have rests := quiet.lineRests parts .bareUrl
  have alone : l.wrapUrls = none := by
    cases found : l.wrapUrls with
    | none => rfl
    | some edited => exact absurd (.wrap on found) (rests edited)
  rintro front rest rfl
  by_contra accepted
  obtain ⟨u, read⟩ := Option.ne_none_iff_exists'.mp accepted
  have start := (Url.isWeb_of_read? read).1.trans (Url.read?_prefix read).2
  have holds := start.isInfix.trans (List.suffix_append front rest).isInfix
  have searched := Line.isUrlSearched_iff.mpr ⟨holds, noLink, noAutolink⟩
  exact accepted (Line.wrapUrls_eq_none_iff.mp alone searched front rest rfl)

theorem fenceSpacing (on : s.isEnabled .fenceSpacing = true) : Rule.fenceSpacing.HoldsIn s.tracking d := by
  intro before l after parts marker
  have visible := congrArg Line.Kind.blank (Line.kind_of_isFenceMarker marker)
  refine ⟨fun even previous last => ?_, fun odd next first => ?_⟩
  · have none := gapRule?_eq_none_iff.mp (quiet.noGap_above parts last even) rfl
    by_contra seen
    have fences := (none ((Bool.not_eq_true _).mp seen) visible).1 on
    exact absurd marker (by simp [fences.2])
  · have none := gapRule?_eq_none_iff.mp (quiet.noGap_below parts first)
    by_contra seen
    have inside := (inFence_of_odd odd).trans marker.symm
    have fences := (none inside visible ((Bool.not_eq_true _).mp seen)).1 on
    exact absurd marker (by simp [fences.1])

theorem listSpacing (on : s.isEnabled .listSpacing = true) : Rule.listSpacing.HoldsIn s.tracking d := by
  intro before l after parts item even
  have visible := congrArg Line.Kind.blank (Line.kind_of_isListItem item)
  have noMarker := congrArg Line.Kind.marker (Line.kind_of_isListItem item)
  refine ⟨fun previous last => ?_, fun next first => ?_⟩
  · have none := gapRule?_eq_none_iff.mp (quiet.noGap_above parts last even) rfl
    by_cases blank : previous.isBlank = true
    · exact Or.inl blank
    · have lists := (none ((Bool.not_eq_true _).mp blank) visible).2 on
      exact Or.inr (lists.2 item)
  · have none := gapRule?_eq_none_iff.mp (quiet.noGap_below parts first)
    by_cases blank : next.isBlank = true
    · exact Or.inl blank
    · have outside := (inFence_of_even even).trans noMarker.symm
      have lists := (none outside visible ((Bool.not_eq_true _).mp blank)).2 on
      exact Or.inr (lists.1 item)

end Quiet

/-- With a cap of three rounds or more, every enabled rule holds in the tidied text. -/
theorem tidy_complies (s : Settings) (text : String) (positive : 1 ≤ s.headingLevel)
    (enough : 3 ≤ s.maxRounds) (r : Rule) (on : s.isEnabled r = true) :
    r.HoldsIn s.tracking (.ofText (s.tidy text).content.toList) := by
  have quiet := quiet_rounds_three positive text
  rw [← content_eq_rounds_three positive enough] at quiet
  cases r with
  | trailingSpaces => exact quiet.trailingSpaces on
  | boldHeading => exact quiet.boldHeading on
  | fenceLanguage => exact quiet.fenceLanguage on
  | bareUrl => exact quiet.bareUrl on
  | fenceSpacing => exact quiet.fenceSpacing on
  | listSpacing => exact quiet.listSpacing on

theorem tidy_complies_with_listSpacing :
    (1 ≤ ({} : Settings).headingLevel ∧ 3 ≤ ({} : Settings).maxRounds ∧
      Settings.isEnabled {} .listSpacing = true) ∧
      Rule.listSpacing.HoldsIn .adjacency
        (.ofText (Settings.tidy {} "text\n- a \n**b** \n```").content.toList) :=
  ⟨by decide, tidy_complies {} _ (by decide) (by decide) .listSpacing (by decide)⟩

end MarkdownTidy
