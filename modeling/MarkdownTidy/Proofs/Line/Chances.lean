import MarkdownTidy.Proofs.Line.Resting

namespace MarkdownTidy
namespace Line

/-- Whether the line is a bare fence or may become one. -/
def mayBeTagged (l : Line) : Bool :=
  l.isBareFence || l.isBoldTitle

/-- Whether the line is not empty and no web address in it is opened yet. -/
def mayBeWrapped (l : Line) : Bool :=
  !l.isEmpty && !Text.occursIn "<http".toList l

/-- How often fixes can be made to a line, one after another and in any places, at most. A bold title counts
twice, for its promotion and for a stray space that the title may have at its end. -/
def chances (l : Line) : Nat :=
  2 * l.isBoldTitle.toNat + l.endsInOneSpace.toNat + l.mayBeTagged.toNat + l.mayBeWrapped.toNat

end Line

variable {s : Settings} {around : Surroundings} {following : Option Line} {l : Line} {r : Rule}
  {edited : Edited} {u : Text}

namespace Line

theorem chances_le_five (l : Line) : l.chances ≤ 5 := by
  have bold := l.isBoldTitle.toNat_le
  have stray := l.endsInOneSpace.toNat_le
  have fence := l.mayBeTagged.toNat_le
  have url := l.mayBeWrapped.toNat_le
  unfold chances
  omega

theorem mayBeWrapped_iff : l.mayBeWrapped = true ↔ l ≠ [] ∧ ¬"<http".toList <:+: l := by
  rw [mayBeWrapped, Bool.and_eq_true, Bool.not_eq_true', Bool.not_eq_true', List.isEmpty_eq_false_iff,
    ← Bool.not_eq_true, Text.occursIn_iff_infix]

theorem infix_titleText (part : u <:+: l) (nonempty : u ≠ [])
    (outside : (u.all fun c => c != '*' && !isSpace c && c != ':') = true) : u <:+: l.titleText := by
  have other c (member : c ∈ u) : (c == '*') = false ∧ isSpace c = false ∧ (c == ':') = false := by
    simpa [and_assoc] using List.all_eq_true.mp outside c member
  have bold : u <:+: l.trimWhile (· == '*') :=
    (Text.infix_trimWhile_iff nonempty fun c member => (other c member).1).mpr part
  have trimmed : u <:+: (l.trimWhile (· == '*')).trim :=
    (Text.infix_trimWhile_iff nonempty fun c member => (other c member).2.1).mpr bold
  have last : ∀ c ∈ u.getLast?, (c == ':') = false :=
    fun c member => (other c (List.mem_of_getLast? member)).2.2
  exact (Text.infix_dropEndWhile_iff nonempty last).mpr trimmed

end Line

/-! What a line may still become is less with every fix. -/

theorem LineFix.isBoldTitle_before (fix : LineFix s around following l r edited)
    (bold : edited.line.isBoldTitle = true) : l.isBoldTitle = true := by
  cases fix with
  | strip => exact Line.isBoldTitle_of_trimEnd bold
  | promote _ _ before => exact before
  | @tag _ _ _ next =>
    have plain := Line.not_isBoldTitle_of_isFenceMarker (Line.isFenceMarker_taggedFence (.infer next))
    exact Bool.noConfusion (plain.symm.trans bold)
  | wrap _ found => exact (Line.wrapUrls_bracketed found).isBoldTitle_of_out bold

theorem LineFix.mayBeTagged_before (fix : LineFix s around following l r edited)
    (tagged : edited.line.mayBeTagged = true) : l.mayBeTagged = true := by
  unfold Line.mayBeTagged at tagged ⊢
  rw [Bool.or_eq_true] at tagged ⊢
  rcases tagged with bare | bold
  · cases fix with
    | strip => exact Or.inl ((Line.isBareFence_trimEnd l).symm.trans bare)
    | promote _ _ before => exact Or.inr before
    | tag _ _ before => exact Or.inl before
    | wrap _ found =>
      exact Bool.noConfusion ((Line.wrapUrls_bracketed found).isBareFence_eq_false.symm.trans bare)
  · exact Or.inr (fix.isBoldTitle_before bold)

theorem LineFix.keeps_opened (fix : LineFix s around following l r edited)
    (opened : "<http".toList <:+: l) : "<http".toList <:+: edited.line := by
  cases fix with
  | strip => exact (Text.infix_dropEndWhile_iff (by decide) (Text.last_stays (by decide))).mpr opened
  | promote =>
    have inTitle := Line.infix_titleText opened (by decide) (by decide)
    exact inTitle.trans ((List.suffix_cons ' ' l.titleText).trans (List.suffix_append _ _)).isInfix
  | tag _ _ bare =>
    have inFence : '<' ∈ l.trim := Text.mem_trim (opened.subset (by decide)) rfl
    rw [beq_iff_eq.mp bare] at inFence
    exact absurd inFence (by decide)
  | wrap _ found => exact absurd opened (Line.not_opened_of_wrapUrls found)

theorem LineFix.mayBeWrapped_before (fix : LineFix s around following l r edited)
    (wrapped : edited.line.mayBeWrapped = true) : l.mayBeWrapped = true := by
  rw [Line.mayBeWrapped_iff] at wrapped ⊢
  exact ⟨fix.ne_nil, wrapped.2 ∘ fix.keeps_opened⟩

/-- Every fix takes one of its chances from a line, or more. -/
theorem LineFix.chances_lt (fix : LineFix s around following l r edited) :
    edited.line.chances < l.chances := by
  have bold := Bool.toNat_le_toNat fix.isBoldTitle_before
  have fence := Bool.toNat_le_toNat fix.mayBeTagged_before
  have url := Bool.toNat_le_toNat fix.mayBeWrapped_before
  have nonempty := fix.ne_nil
  unfold Line.chances
  cases fix with
  | strip _ stray =>
    rw [stray, Line.endsInOneSpace_trimEnd l, Bool.toNat_true, Bool.toNat_false]
    dsimp only at bold fence url ⊢
    omega
  | promote _ _ before =>
    have plain := Line.not_isBoldTitle_heading s.headingLevel l.titleText
    have uncovered := (Line.heading s.headingLevel l.titleText).endsInOneSpace.toNat_le
    rw [before, plain, Bool.toNat_true, Bool.toNat_false]
    dsimp only at fence url ⊢
    omega
  | @tag _ _ bare next =>
    have before : l.mayBeTagged = true := by rw [Line.mayBeTagged, bare, Bool.true_or]
    have after : (Line.taggedFence (.infer next)).mayBeTagged = false := by
      cases Language.infer next <;> decide
    rw [before, after, Line.endsInOneSpace_taggedFence, Bool.toNat_true, Bool.toNat_false]
    dsimp only at bold url ⊢
    omega
  | wrap _ found =>
    have wrapped := Line.wrapUrls_bracketed found
    have before : l.mayBeWrapped = true :=
      Line.mayBeWrapped_iff.mpr ⟨nonempty, Line.not_opened_of_wrapUrls found⟩
    have after : edited.line.mayBeWrapped = false := by
      rw [← Bool.not_eq_true, Line.mayBeWrapped_iff]
      exact fun unopened => unopened.2 wrapped.opened
    rw [before, after, wrapped.endsInOneSpace_eq, Bool.toNat_true, Bool.toNat_false]
    omega

theorem editLine_rests_or_lowers (s : Settings) (around : Surroundings) (following : Option Line)
    (l : Line) :
    s.editLine around following l = pure l ∨ (s.editLine around following l).value.chances < l.chances := by
  refine s.editLine_induction (P := fun x => x = pure l ∨ x.value.chances < l.chances) (Or.inl rfl) ?_
  intro m c r edited before fix
  have less := fix.chances_lt
  rcases before with same | lower
  · obtain ⟨rfl, -⟩ := Counted.mk.inj same
    exact Or.inr less
  · exact Or.inr (less.trans lower)

end MarkdownTidy
