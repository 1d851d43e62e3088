import MarkdownTidy.Proofs.Line.Fixes

namespace MarkdownTidy
variable {s : Settings} {around : Surroundings} {following : Option Line} {l : Line} {r q : Rule}
  {edited : Edited}

namespace Line

theorem isFenceMarker_taggedFence (language : Language) : (taggedFence language).isFenceMarker = true := by
  cases language <;> decide

theorem endsInOneSpace_taggedFence (language : Language) : (taggedFence language).endsInOneSpace = false := by
  cases language <;> decide

theorem isFenceMarker_of_isBareFence (bare : l.isBareFence = true) : l.isFenceMarker = true := by
  rw [isBareFence, beq_iff_eq] at bare
  rw [isFenceMarker, bare]
  exact List.isPrefixOf_iff_prefix.mpr (List.prefix_refl fence)

theorem not_isBoldTitle_of_isFenceMarker (marker : l.isFenceMarker = true) : l.isBoldTitle = false := by
  rw [← Bool.not_eq_true]
  intro bold
  have kinds := (kind_of_isBoldTitle bold).symm.trans (kind_of_isFenceMarker marker)
  exact absurd kinds (by decide)

theorem not_isBoldTitle_heading (level : Nat) (title : Text) :
    isBoldTitle (heading level title) = false := by
  rw [← Bool.not_eq_true]
  intro bold
  obtain ⟨_, _, shape, -⟩ := isBoldTitle_iff.mp bold
  cases level with
  | zero => simp [heading] at shape
  | succ => simp [heading, List.replicate_succ] at shape

theorem isBareFence_trimEnd (l : Line) : isBareFence l.trimEnd = l.isBareFence := by
  rw [isBareFence, isBareFence, Text.trim_trimEnd]

end Line

/-- There is nothing to fix in a fence that names its language, and no more. -/
theorem lineRests_taggedFence (language : Language) (r : Rule) :
    LineRests s around following r (Line.taggedFence language) := by
  intro edited fix
  cases fix with
  | strip _ stray => exact Bool.noConfusion ((Line.endsInOneSpace_taggedFence language).symm.trans stray)
  | promote _ _ bold =>
    rw [Line.not_isBoldTitle_of_isFenceMarker (Line.isFenceMarker_taggedFence language)] at bold
    contradiction
  | tag _ _ bare =>
    revert bare
    cases language <;> decide
  | wrap _ found =>
    have colon := Line.colon_mem_of_wrapUrls found
    revert colon
    cases language <;> decide

theorem LineFix.rests (fix : LineFix s around following l r edited) :
    LineRests s around following r edited.line := by
  intro again fix'
  cases fix with
  | strip =>
    cases fix' with
    | strip _ stray => simp [Line.endsInOneSpace_trimEnd] at stray
  | promote =>
    cases fix' with
    | promote _ _ bold => simp [Line.not_isBoldTitle_heading] at bold
  | tag => exact lineRests_taggedFence _ _ _ fix'
  | wrap _ found =>
    cases fix' with
    | wrap _ found' => simp [(Line.wrapUrls_bracketed found).wrapUrls_eq_none] at found'

/-- A fix other than a promotion sets no rule to work on the line. -/
theorem LineRests.after (rests : LineRests s around following r l)
    (fix : LineFix s around following l q edited) (other : q ≠ .boldHeading) :
    LineRests s around following r edited.line := by
  intro again fix'
  cases fix with
  | promote => contradiction
  | strip on stray =>
    cases fix' with
    | strip _ stray' => simp [Line.endsInOneSpace_trimEnd] at stray'
    | promote on' afterBlank bold => exact rests _ (.promote on' afterBlank (Line.isBoldTitle_of_trimEnd bold))
    | tag on' tags bare follows =>
      exact rests _ (.tag on' tags (by rwa [Line.isBareFence_trimEnd] at bare) follows)
    | wrap on' found =>
      cases before : l.wrapUrls with
      | none => simp [Line.wrapUrls_trimEnd before] at found
      | some e => exact rests _ (.wrap on' before)
  | tag => exact lineRests_taggedFence _ _ _ fix'
  | wrap on found =>
    have wrapped := Line.wrapUrls_bracketed found
    cases fix' with
    | strip on' stray => exact rests _ (.strip on' (by rwa [wrapped.endsInOneSpace_eq] at stray))
    | promote on' afterBlank bold => exact rests _ (.promote on' afterBlank (wrapped.isBoldTitle_of_out bold))
    | tag on' tags bare follows => simp [wrapped.isBareFence_eq_false] at bare
    | wrap on' found' => simp [wrapped.wrapUrls_eq_none] at found'

/-- To rest at a line, it matters whether a line follows, but not which one. -/
theorem LineRests.of_following {following' : Option Line} (same : following'.isSome = following.isSome)
    (rests : LineRests s around following r l) : LineRests s around following' r l := by
  intro edited fix
  cases fix with
  | strip on stray => exact rests _ (.strip on stray)
  | promote on afterBlank bold => exact rests _ (.promote on afterBlank bold)
  | tag on tags bare follows =>
    rw [follows, Option.isSome_some, eq_comm, Option.isSome_iff_exists] at same
    obtain ⟨next', follows'⟩ := same
    exact rests _ (.tag on tags bare follows')
  | wrap on found => exact rests _ (.wrap on found)

theorem LineRests.strip_anywhere (rests : LineRests s around following .trailingSpaces l)
    (around' : Surroundings) (following' : Option Line) :
    LineRests s around' following' .trailingSpaces l := by
  intro edited fix
  cases fix with
  | strip on stray => exact rests _ (.strip on stray)

/-- What edits lead to: nothing is left to fix in a line but a stray space at the end of a heading. -/
structure NearlyRests (s : Settings) (around : Surroundings) (following : Option Line) (l : Line) :
    Prop where
  others : ∀ r, r ≠ .trailingSpaces → LineRests s around following r l
  stray : LineRests s around following .trailingSpaces l ∨ l.head? = some '#'

theorem NearlyRests.of_following {following' : Option Line}
    (same : following'.isSome = following.isSome) (nearly : NearlyRests s around following l) :
    NearlyRests s around following' l :=
  ⟨fun r other => (nearly.others r other).of_following same,
    nearly.stray.imp_left fun rests => rests.of_following same⟩

theorem Turn.rests {x : Counted Line} (turn : Turn s around following r l x) :
    LineRests s around following r x.value := by
  cases turn with
  | fixed fix => exact fix.rests
  | rested rests => exact rests

theorem Turn.keeps {x : Counted Line} (turn : Turn s around following q l x) (other : q ≠ .boldHeading)
    (rests : LineRests s around following r l) : LineRests s around following r x.value := by
  cases turn with
  | fixed fix => exact rests.after fix other
  | rested => exact rests

theorem Turn.keeps_numberSign {x : Counted Line} (turn : Turn s around following q l x)
    (sign : l.head? = some '#') : x.value.head? = some '#' := by
  obtain ⟨rest, rfl⟩ := List.head?_eq_some_iff.mp sign
  have kinds := Line.kind_numberSign rest
  cases turn with
  | fixed fix =>
    cases fix with
    | strip =>
      have start : ['#'] <+: Text.trimEnd ('#' :: rest) :=
        (Text.prefix_dropEndWhile_iff (Text.last_stays (by decide))).mpr ⟨rest, rfl⟩
      obtain ⟨back, whole⟩ := start
      change (Text.trimEnd ('#' :: rest)).head? = some '#'
      rw [← whole, List.cons_append, List.head?_cons]
    | promote _ _ bold =>
      obtain ⟨_, _, shape, -⟩ := Line.isBoldTitle_iff.mp bold
      simp at shape
    | tag _ _ bare =>
      have marker := Line.kind_of_isFenceMarker (Line.isFenceMarker_of_isBareFence bare)
      rw [kinds] at marker
      exact absurd marker (by decide)
    | wrap _ found => exact (Line.wrapUrls_bracketed found).head?_numberSign.mpr sign
  | rested => exact sign

theorem Turn.promote_stray {x : Counted Line} (positive : 1 ≤ s.headingLevel)
    (turn : Turn s around following .boldHeading l x)
    (rests : LineRests s around following .trailingSpaces l) :
    LineRests s around following .trailingSpaces x.value ∨ x.value.head? = some '#' := by
  cases turn with
  | fixed fix =>
    cases fix with
    | promote =>
      obtain ⟨rest, shape⟩ := Line.heading_numberSign positive l.titleText
      exact Or.inr (by rw [shape, List.head?_cons])
  | rested => exact Or.inl rests

theorem editLine_nearlyRests (positive : 1 ≤ s.headingLevel) :
    NearlyRests s around following (s.editLine around following l).value := by
  obtain ⟨x₁, x₂, x₃, x₄, turn₁, turn₂, turn₃, turn₄, whole⟩ := s.editLine_turns around following l
  -- A promotion comes after the stripping, and may end the heading with the space it found inside.
  have stray₂ := turn₂.promote_stray positive turn₁.rests
  have stray₃ := stray₂.imp (turn₃.keeps (by decide)) turn₃.keeps_numberSign
  have stray₄ := stray₃.imp (turn₄.keeps (by decide)) turn₄.keeps_numberSign
  have promote₄ := turn₄.keeps (by decide) (turn₃.keeps (by decide) turn₂.rests)
  have tag₄ := turn₄.keeps (by decide) turn₃.rests
  rw [whole]
  refine ⟨?_, stray₄⟩
  intro r other edited fix
  cases fix with
  | strip => contradiction
  | promote on afterBlank bold => exact promote₄ _ (.promote on afterBlank bold)
  | tag on tags bare follows => exact tag₄ _ (.tag on tags bare follows)
  | wrap on found => exact turn₄.rests _ (.wrap on found)

/-- Once only a stray space is left, one more edit leaves nothing to fix. -/
theorem NearlyRests.editLine_rests (nearly : NearlyRests s around following l) :
    ∀ r, LineRests s around following r (s.editLine around following l).value := by
  obtain ⟨x₁, x₂, x₃, x₄, turn₁, turn₂, turn₃, turn₄, whole⟩ := s.editLine_turns around following l
  have rests : ∀ r, LineRests s around following r x₁.value := by
    intro r
    by_cases stray : r = .trailingSpaces
    · subst r
      exact turn₁.rests
    · exact turn₁.keeps (by decide) (nearly.others r stray)
  obtain rfl := turn₂.value_eq (rests _)
  obtain rfl := turn₃.value_eq (rests _)
  obtain rfl := turn₄.value_eq (rests _)
  rw [whole]
  exact rests

end MarkdownTidy
