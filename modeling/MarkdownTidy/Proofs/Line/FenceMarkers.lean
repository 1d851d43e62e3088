import MarkdownTidy.Proofs.Line.SameEdits

namespace MarkdownTidy
namespace Settings

/-- A line without its stray space, if spaces are stripped. -/
def stripped (s : Settings) (l : Line) : Line :=
  ((Edit.onlyIf (s.isEnabled .trailingSpaces) Line.stripStraySpace).apply .trailingSpaces l).value

/-- A line with brackets around its bare URLs, if URLs are wrapped. -/
def wrapped (s : Settings) (l : Line) : Line :=
  ((Edit.onlyIf (s.isEnabled .bareUrl) Line.wrapUrls).apply .bareUrl l).value

end Settings

variable {s : Settings} {around around' : Surroundings} {following : Option Line} {l next : Line}
  {r q : Rule} {edited edited' : Edited} {x y : Counted Line}

theorem Turn.get_other (turn : Turn s around following r l x) (other : q ≠ r) : x.counts.get q = 0 := by
  cases turn with
  | fixed fix => exact (Counts.get_single r q _).trans (if_neg other)
  | rested => exact Counts.get_zero q

theorem Turn.value_eq_stripped (turn : Turn s around following .trailingSpaces l x) :
    x.value = s.stripped l :=
  congrArg Counted.value (turn.unique (turn_apply (by simp [Settings.lineEdits]) l))

theorem Turn.value_eq_wrapped (turn : Turn s around following .bareUrl l x) : x.value = s.wrapped l :=
  congrArg Counted.value (turn.unique (turn_apply (by simp [Settings.lineEdits]) l))

namespace Line

theorem stripped_eq_or (s : Settings) (l : Line) : s.stripped l = l.trimEnd ∨ s.stripped l = l := by
  unfold Settings.stripped Edit.apply Edit.onlyIf stripStraySpace
  by_cases on : s.isEnabled .trailingSpaces = true
  · by_cases stray : l.endsInOneSpace = true
    · exact Or.inl (by simp [on, stray])
    · exact Or.inr (by simp [on, stray])
  · exact Or.inr (by simp [on])

theorem isBareFence_stripped (s : Settings) (l : Line) : (s.stripped l).isBareFence = l.isBareFence := by
  rcases stripped_eq_or s l with same | same
  · rw [same, isBareFence_trimEnd]
  · rw [same]

theorem isFenceMarker_stripped (s : Settings) (l : Line) :
    (s.stripped l).isFenceMarker = l.isFenceMarker := by
  rcases stripped_eq_or s l with same | same
  · rw [same, isFenceMarker_trimEnd]
  · rw [same]

theorem colon_not_mem_of_isBareFence (bare : l.isBareFence = true) : ':' ∉ l := by
  intro colon
  have inFence := Text.mem_trim colon rfl
  rw [isBareFence, beq_iff_eq] at bare
  rw [bare] at inFence
  revert inFence
  decide

/-- Fences hold no URL. -/
theorem wrapped_eq_self (s : Settings) (noColon : ':' ∉ l) : s.wrapped l = l := by
  have alone : l.wrapUrls = none := by
    rw [← Option.not_isSome_iff_eq_none, Option.isSome_iff_exists]
    rintro ⟨edited, found⟩
    exact noColon (colon_mem_of_wrapUrls found)
  unfold Settings.wrapped Edit.apply Edit.onlyIf
  rw [alone, ite_self]
  rfl

end Line

theorem lineRests_boldHeading (marker : l.isFenceMarker = true) :
    LineRests s around following .boldHeading l := by
  intro edited fix
  cases fix with
  | promote _ _ bold =>
    rw [Line.not_isBoldTitle_of_isFenceMarker marker] at bold
    contradiction

/-- At a fence marker two of the four turns are left out. -/
theorem editLine_of_marker (marker : l.isFenceMarker = true) (s : Settings) (around : Surroundings)
    (following : Option Line) :
    ∃ x, Turn s around following .fenceLanguage (s.stripped l) x ∧
      (s.editLine around following l).value = s.wrapped x.value ∧
      (s.editLine around following l).counts.fenceLanguages = x.counts.fenceLanguages := by
  obtain ⟨x₁, x₂, x₃, x₄, turn₁, turn₂, turn₃, turn₄, whole⟩ := s.editLine_turns around following l
  rw [turn₁.value_eq_stripped] at turn₂
  rw [← Line.isFenceMarker_stripped s] at marker
  obtain rfl := turn₂.value_eq (lineRests_boldHeading marker)
  refine ⟨x₃, turn₃, ?_, ?_⟩
  · rw [whole]
    exact turn₄.value_eq_wrapped
  · have none₁ : x₁.counts.fenceLanguages = 0 := turn₁.get_other (q := .fenceLanguage) nofun
    have none₄ : x₄.counts.fenceLanguages = 0 := turn₄.get_other (q := .fenceLanguage) nofun
    rw [whole]
    change x₁.counts.fenceLanguages + (0 + (x₃.counts.fenceLanguages + x₄.counts.fenceLanguages)) = _
    rw [none₁, none₄, Nat.zero_add, Nat.zero_add, Nat.add_zero]

theorem editLine_tagged (on : s.isEnabled .fenceLanguage = true) (tags : s.tracking.tags around = true)
    (bare : l.isBareFence = true) (follows : following = some next) :
    (s.editLine around following l).value = Line.taggedFence (.infer next) ∧
      (s.editLine around following l).counts.fenceLanguages = 1 := by
  have marker := Line.isFenceMarker_of_isBareFence bare
  obtain ⟨x, turn, value, counts⟩ := editLine_of_marker marker s around following
  have tag : LineFix s around following (s.stripped l) .fenceLanguage _ :=
    .tag on tags ((Line.isBareFence_stripped s l).trans bare) follows
  obtain rfl := turn.unique (.fixed tag)
  refine ⟨value.trans (Line.wrapped_eq_self s ?_), counts⟩
  change ':' ∉ Line.taggedFence (.infer next)
  cases Language.infer next <;> decide

theorem editLine_untagged (marker : l.isFenceMarker = true)
    (rests : LineRests s around following .fenceLanguage l) :
    (s.editLine around following l).value = s.wrapped (s.stripped l) ∧
      (s.editLine around following l).counts.fenceLanguages = 0 := by
  obtain ⟨x, turn, value, counts⟩ := editLine_of_marker marker s around following
  have rests' : LineRests s around following .fenceLanguage (s.stripped l) := by
    intro edited fix
    cases fix with
    | tag on tags bare follows =>
      exact rests _ (.tag on tags ((Line.isBareFence_stripped s l).symm.trans bare) follows)
  obtain rfl := turn.value_eq rests'
  exact ⟨value, counts⟩

/-- Only fence markers are tagged. -/
theorem editLine_of_not_marker (positive : 1 ≤ s.headingLevel) (noMarker : l.isFenceMarker = false) :
    (s.editLine around following l).counts.fenceLanguages = 0 := by
  have both : (s.editLine around following l).value.isFenceMarker = false ∧
      (s.editLine around following l).counts.fenceLanguages = 0 := by
    refine s.editLine_induction
      (P := fun x => x.value.isFenceMarker = false ∧ x.counts.fenceLanguages = 0) ⟨noMarker, rfl⟩ ?_
    rintro m c r edited ⟨noMarker, none⟩ fix
    refine ⟨(fix.isFenceMarker_eq positive).trans noMarker, ?_⟩
    have other : r ≠ .fenceLanguage := by
      rintro rfl
      cases fix with
      | tag _ _ bare => exact Bool.noConfusion (noMarker.symm.trans (Line.isFenceMarker_of_isBareFence bare))
    have here : (Counts.single r edited.fixes).fenceLanguages = 0 :=
      (Counts.get_single r .fenceLanguage _).trans (if_neg other.symm)
    change c.fenceLanguages + (Counts.single r edited.fixes).fenceLanguages = 0
    rw [here]
    exact none
  exact both.2

/-- For a fence marker it does not matter whether a blank line is above. -/
theorem LineRests.of_inFence (marker : l.isFenceMarker = true) (same : around'.inFence = around.inFence)
    (rests : LineRests s around following r l) : LineRests s around' following r l := by
  intro edited fix
  have untitled : s.Untitled l := fun _ => Line.not_isBoldTitle_of_isFenceMarker marker
  exact rests edited (fix.of_inFence untitled same.symm)

/-- An edited fence marker rests. -/
theorem editLine_rests_of_marker (positive : 1 ≤ s.headingLevel) (marker : l.isFenceMarker = true) :
    ∀ r, LineRests s around following r (s.editLine around following l).value := by
  have nearly : NearlyRests s around following (s.editLine around following l).value :=
    editLine_nearlyRests positive
  have kinds := Line.kind_of_isFenceMarker
    ((isFenceMarker_editLine positive around following l).trans marker)
  intro r
  by_cases stray : r = .trailingSpaces
  · subst r
    refine nearly.stray.resolve_right fun sign => ?_
    obtain ⟨rest, shape⟩ := List.head?_eq_some_iff.mp sign
    rw [shape, Line.kind_numberSign] at kinds
    exact absurd kinds (by decide)
  · exact nearly.others r stray

end MarkdownTidy
