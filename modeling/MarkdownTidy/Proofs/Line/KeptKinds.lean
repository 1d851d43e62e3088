import MarkdownTidy.Proofs.Line.Resting

namespace MarkdownTidy
variable {s : Settings} {around : Surroundings} {following : Option Line} {l : Line} {r : Rule}
  {edited : Edited}

namespace Line

theorem isBlank_trimEnd (l : Line) : isBlank l.trimEnd = l.isBlank := by
  obtain ⟨tail, whole, spaces⟩ := Text.dropEndWhile_split isSpace l
  have last : tail.all isSpace = true := List.all_eq_true.mpr spaces
  conv_rhs => rw [← whole]
  rw [isBlank, isBlank, List.all_append, last, Bool.and_true]
  rfl

theorem isFenceMarker_trimEnd (l : Line) : isFenceMarker l.trimEnd = l.isFenceMarker := by
  rw [isFenceMarker, isFenceMarker, Text.trim_trimEnd]

/-- To the blank line pass a line is as good as another of its kind. A heading or a break may take
the place of a line that is neither. -/
structure StandsFor (l' l : Line) : Prop where
  kind : l'.kind = l.kind
  heading : l.isHeadingOrBreak = true → l'.isHeadingOrBreak = true

theorem StandsFor.refl (l : Line) : StandsFor l l :=
  ⟨rfl, id⟩

theorem StandsFor.trans {l₁ l₂ l₃ : Line} (h₁ : StandsFor l₁ l₂) (h₂ : StandsFor l₂ l₃) :
    StandsFor l₁ l₃ :=
  ⟨h₁.kind.trans h₂.kind, h₁.heading ∘ h₂.heading⟩

theorem standsFor_numberSign {l' : Line} (sign' : l'.head? = some '#') (sign : l.head? = some '#') :
    StandsFor l' l := by
  obtain ⟨rest', rfl⟩ := List.head?_eq_some_iff.mp sign'
  obtain ⟨rest, rfl⟩ := List.head?_eq_some_iff.mp sign
  exact ⟨(kind_numberSign rest').trans (kind_numberSign rest).symm, fun _ => rfl⟩

end Line

/-- A fix other than stripping a space keeps the kind of the line. -/
theorem LineFix.standsFor (positive : 1 ≤ s.headingLevel)
    (fix : LineFix s around following l r edited) (other : r ≠ .trailingSpaces) :
    Line.StandsFor edited.line l := by
  cases fix with
  | strip => contradiction
  | promote _ _ bold =>
    obtain ⟨rest, shape⟩ := Line.heading_numberSign positive l.titleText
    refine ⟨?_, fun start => ?_⟩
    · change (Line.heading s.headingLevel l.titleText).kind = l.kind
      rw [shape, Line.kind_numberSign, Line.kind_of_isBoldTitle bold]
    · rw [Line.isHeadingOrBreak_of_isBoldTitle bold] at start
      contradiction
  | tag _ _ bare =>
    have marker := Line.isFenceMarker_of_isBareFence bare
    refine ⟨?_, fun start => ?_⟩
    · rw [Line.kind_of_isFenceMarker marker]
      exact Line.kind_of_isFenceMarker (Line.isFenceMarker_taggedFence _)
    · rw [Line.isHeadingOrBreak_of_isFenceMarker marker] at start
      contradiction
  | wrap _ found =>
    have wrapped := Line.wrapUrls_bracketed found
    exact ⟨wrapped.kind_eq, fun start => wrapped.isHeadingOrBreak_eq.trans start⟩

/-- The surroundings of the next line are the same before and after a fix. -/
theorem LineFix.past_eq (positive : 1 ≤ s.headingLevel) (fix : LineFix s around following l r edited)
    (before : Surroundings) : before.past edited.line = before.past l := by
  have same : edited.line.isBlank = l.isBlank ∧ edited.line.isFenceMarker = l.isFenceMarker := by
    by_cases stray : r = .trailingSpaces
    · subst r
      cases fix with
      | strip => exact ⟨Line.isBlank_trimEnd l, Line.isFenceMarker_trimEnd l⟩
    · have kinds := (fix.standsFor positive stray).kind
      exact ⟨congrArg Line.Kind.blank kinds, congrArg Line.Kind.marker kinds⟩
  rw [Surroundings.past, Surroundings.past, same.1, same.2]

theorem editLine_past (positive : 1 ≤ s.headingLevel) (before : Surroundings) :
    before.past (s.editLine around following l).value = before.past l := by
  refine s.editLine_induction (P := fun x => before.past x.value = before.past l) rfl ?_
  intro m c r edited kept fix
  exact (fix.past_eq positive before).trans kept

theorem isFenceMarker_of_past {l' : Line} (same : Surroundings.past {} l' = Surroundings.past {} l) :
    l'.isFenceMarker = l.isFenceMarker := by
  have inFence := congrArg Surroundings.inFence same
  rwa [Surroundings.past, Surroundings.past, Bool.false_bne, Bool.false_bne] at inFence

theorem LineFix.isFenceMarker_eq (positive : 1 ≤ s.headingLevel)
    (fix : LineFix s around following l r edited) : edited.line.isFenceMarker = l.isFenceMarker :=
  isFenceMarker_of_past (fix.past_eq positive {})

theorem isFenceMarker_editLine (positive : 1 ≤ s.headingLevel) (around : Surroundings)
    (following : Option Line) (l : Line) :
    (s.editLine around following l).value.isFenceMarker = l.isFenceMarker :=
  isFenceMarker_of_past (editLine_past positive {})

/-- Where only headings can have a stray space, an edited line stands for the line as it was. -/
theorem editLine_standsFor (positive : 1 ≤ s.headingLevel)
    (stray : LineRests s around following .trailingSpaces l ∨ l.head? = some '#') :
    Line.StandsFor (s.editLine around following l).value l := by
  obtain ⟨x₁, x₂, x₃, x₄, turn₁, turn₂, turn₃, turn₄, whole⟩ := s.editLine_turns around following l
  have keep {q : Rule} {m : Line} {x : Counted Line} (turn : Turn s around following q m x)
      (other : q ≠ .trailingSpaces) : Line.StandsFor x.value m := by
    cases turn with
    | fixed fix => exact fix.standsFor positive other
    | rested => exact .refl m
  have first : Line.StandsFor x₁.value l := by
    rcases stray with rests | sign
    · obtain rfl := turn₁.value_eq rests
      exact .refl l
    · exact Line.standsFor_numberSign (turn₁.keeps_numberSign sign) sign
  rw [whole]
  exact (keep turn₄ (by decide)).trans
    ((keep turn₃ (by decide)).trans ((keep turn₂ (by decide)).trans first))

end MarkdownTidy
