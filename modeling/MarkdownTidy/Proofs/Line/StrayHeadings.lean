import MarkdownTidy.Proofs.Line.FenceMarkers

namespace MarkdownTidy

namespace Settings

/-- Whether the line, once it is stripped, is a bold title with a space right before the colons that are dropped,
or with nothing else in it. A heading made of it ends in a stray space. -/
def leavesSpace (s : Settings) (l : Line) : Bool :=
  let title := (s.stripped l).titleText
  s.isEnabled .boldHeading && (s.stripped l).isBoldTitle && (title.isEmpty || Line.endsInOneSpace title)

/-- The stray space that a line ends in, and the one that a promotion would leave in it. -/
def strays (s : Settings) (l : Line) : Nat :=
  l.endsInOneSpace.toNat + (s.leavesSpace l).toNat

end Settings

variable {s : Settings} {around : Surroundings} {following : Option Line} {l out : Line} {r : Rule}
  {edited : Edited} {x : Counted Line} {back : Text} {c : Char}

/-! The title of a line with brackets in it. -/

namespace Line

/-- What is left of the end of a line in its title. -/
def titleEnd (back : Text) : Text :=
  (Text.trimEnd (back.dropEndWhile (· == '*'))).dropEndWhile (· == ':')

theorem titleEnd_append_cons (star : (c == '*') = false) (visible : isSpace c = false)
    (colon : (c == ':') = false) (front back : Text) :
    titleEnd (front ++ c :: back) = front ++ c :: titleEnd back := by
  rw [titleEnd, Text.trimEnd, Text.dropEndWhile_append_cons (p := (· == '*')) star,
    Text.dropEndWhile_append_cons visible, Text.dropEndWhile_append_cons (p := (· == ':')) colon]
  rfl

/-- As long as anything is left of the end, nothing before it is cut off. -/
theorem titleEnd_append (left : titleEnd back ≠ []) (front : Text) :
    titleEnd (front ++ back) = front ++ titleEnd back := by
  have left₂ : Text.trimEnd (back.dropEndWhile (· == '*')) ≠ [] := by
    intro none
    exact left (by rw [titleEnd, none]; rfl)
  have left₁ : back.dropEndWhile (· == '*') ≠ [] := by
    intro none
    exact left₂ (by rw [none]; rfl)
  rw [titleEnd, Text.dropEndWhile_append_of_ne_nil left₁]
  change ((front ++ _).dropEndWhile isSpace).dropEndWhile (· == ':') = _
  rw [Text.dropEndWhile_append_of_ne_nil left₂]
  exact Text.dropEndWhile_append_of_ne_nil left front

theorem titleText_append_cons (star : (c == '*') = false) (visible : isSpace c = false)
    (colon : (c == ':') = false) (front back : Text) :
    titleText (front ++ c :: back) =
      Text.trimStart (front.dropWhile (· == '*')) ++ c :: titleEnd back := by
  rw [titleText, Text.trimWhile, Text.dropWhile_append_cons (p := (· == '*')) star,
    Text.dropEndWhile_append_cons (p := (· == '*')) star, Text.trim, Text.trimWhile,
    Text.dropWhile_append_cons visible, Text.dropEndWhile_append_cons visible,
    Text.dropEndWhile_append_cons (p := (· == ':')) colon]
  rfl

theorem heading_append (level : Nat) (front back : Text) :
    heading level (front ++ back) = heading level front ++ back := by
  simp [heading]

/-- If a heading made of the wrapped line ends in a stray space, so does one made of the line. -/
theorem Bracketed.endsInOneSpace_heading (wrapped : l.Bracketed out) {level : Nat}
    (stray : endsInOneSpace (heading level out.titleText) = true) :
    endsInOneSpace (heading level l.titleText) = true := by
  obtain ⟨front, inner, outer, back, rfl, rfl, ⟨⟨rest, web⟩, visible⟩, -⟩ := wrapped
  rw [titleText_append_cons (by decide) (by decide) (by decide),
    titleEnd_append_cons (by decide) (by decide) (by decide)] at stray
  -- The bracket is no space, so that the stray space stands behind it and is in the line too.
  have left : titleEnd back ≠ [] := by
    intro none
    have last := getLast?_of_endsInOneSpace stray
    rw [none, ← List.cons_append, ← List.append_assoc, heading_append,
      List.getLast?_append_of_ne_nil _ (List.cons_ne_nil _ _), List.getLast?_singleton] at last
    revert last
    decide
  have title : titleText (front ++ inner ++ back) =
      Text.trimStart (front.dropWhile (· == '*')) ++ inner ++ titleEnd back := by
    have letters : inner = 'h' :: ("ttp".toList ++ rest) := web.symm
    rw [letters, List.append_assoc, List.cons_append,
      titleText_append_cons (by decide) (by decide) (by decide), titleEnd_append left]
    simp
  obtain ⟨start, last, rfl⟩ : ∃ start last, inner = start ++ [last] := by
    refine ⟨_, _, (List.dropLast_append_getLast ?_).symm⟩
    rintro rfl
    simp at web
  have same := endsInOneSpace_congr (show isSpace '>' = false from rfl) (visible last (by simp))
    (heading level (Text.trimStart (front.dropWhile (· == '*')) ++ '<' :: outer))
    (heading level (Text.trimStart (front.dropWhile (· == '*')) ++ start)) (titleEnd back)
  rw [← heading_append, ← heading_append] at same
  rw [title]
  simp only [List.append_assoc, List.cons_append, List.nil_append] at same ⊢
  exact same.symm.trans stray

theorem isSpace_of_titleText {rest : Text} (starts : l.titleText = c :: rest) : isSpace c = false := by
  have start : c :: rest <+: (l.trimWhile (· == '*')).dropWhile isSpace :=
    starts ▸ (Text.dropEndWhile_isPrefix _ _).trans (Text.dropEndWhile_isPrefix _ _)
  obtain ⟨more, whole⟩ := start
  have first := List.head?_dropWhile_not isSpace (l.trimWhile (· == '*'))
  rw [← whole] at first
  exact first

theorem endsInOneSpace_heading_titleText (level : Nat) (l : Line) :
    endsInOneSpace (heading level l.titleText) = (l.titleText.isEmpty || endsInOneSpace l.titleText) := by
  cases starts : l.titleText with
  | nil => cases level <;> simp [heading, endsInOneSpace, List.replicate_succ']
  | cons c rest =>
    have visible := isSpace_of_titleText starts
    have same := endsInOneSpace_congr visible visible (heading level []) [] rest
    rw [← heading_append] at same
    exact same

theorem isBoldTitle_of_stripped (bold : (s.stripped l).isBoldTitle = true) : l.isBoldTitle = true := by
  rcases stripped_eq_or s l with same | same
  · exact isBoldTitle_of_trimEnd (same ▸ bold)
  · exact same ▸ bold

theorem stripped_eq_self (noStray : l.endsInOneSpace = false) (s : Settings) : s.stripped l = l := by
  simp [Settings.stripped, Edit.apply, Edit.onlyIf, stripStraySpace, noStray]

theorem endsInOneSpace_stripped (on : s.isEnabled .trailingSpaces = true) (l : Line) :
    (s.stripped l).endsInOneSpace = false := by
  cases stray : l.endsInOneSpace with
  | false => rw [stripped_eq_self stray, stray]
  | true =>
    simp only [Settings.stripped, Edit.apply, Edit.onlyIf, stripStraySpace, on, stray, if_true]
    exact endsInOneSpace_trimEnd l

end Line

namespace Settings

theorem leavesSpace_iff : s.leavesSpace l = true ↔
    s.isEnabled .boldHeading = true ∧ (s.stripped l).isBoldTitle = true ∧
      Line.endsInOneSpace (Line.heading s.headingLevel (s.stripped l).titleText) = true := by
  rw [Line.endsInOneSpace_heading_titleText]
  simp [leavesSpace, and_assoc]

theorem leavesSpace_of_plain (plain : l.isBoldTitle = false) : s.leavesSpace l = false := by
  rw [← Bool.not_eq_true, leavesSpace_iff]
  rintro ⟨-, bold, -⟩
  exact Bool.noConfusion (plain.symm.trans (Line.isBoldTitle_of_stripped bold))

/-- Whatever stray space there is or will be in the second line comes from a promotion of the first. -/
structure StraysFrom (s : Settings) (l m : Line) : Prop where
  stray : m.endsInOneSpace = true → s.leavesSpace l = true ∧ m.isBoldTitle = false
  leaves : s.leavesSpace m = true → s.leavesSpace l = true

theorem StraysFrom.strays_le {m : Line} (origin : s.StraysFrom l m) :
    s.strays m ≤ (s.leavesSpace l).toNat := by
  unfold strays
  cases stray : m.endsInOneSpace with
  | false =>
    rw [Bool.toNat_false, Nat.zero_add]
    exact Bool.toNat_le_toNat origin.leaves
  | true =>
    obtain ⟨source, plain⟩ := origin.stray stray
    rw [leavesSpace_of_plain plain, source]
    rfl

theorem straysFrom_stripped (on : s.isEnabled .trailingSpaces = true) (l : Line) :
    s.StraysFrom l (s.stripped l) := by
  have noStray := Line.endsInOneSpace_stripped on l
  refine ⟨fun stray => Bool.noConfusion (noStray.symm.trans stray), fun leaves => ?_⟩
  rwa [leavesSpace, Line.stripped_eq_self noStray] at leaves

end Settings

theorem LineFix.straysFrom {m : Line} (fix : LineFix s around following m r edited) (other : r ≠ .trailingSpaces)
    (origin : s.StraysFrom l m) : s.StraysFrom l edited.line := by
  -- A bold title is stripped already, so that its own title makes the heading.
  have stripped (bold : m.isBoldTitle = true) : s.stripped m = m := by
    refine Line.stripped_eq_self ?_ s
    rw [← Bool.not_eq_true]
    intro stray
    exact Bool.noConfusion ((origin.stray stray).2.symm.trans bold)
  cases fix with
  | strip => contradiction
  | promote on _ bold =>
    have plain := Line.not_isBoldTitle_heading s.headingLevel m.titleText
    refine ⟨fun stray => ⟨origin.leaves ?_, plain⟩, fun leaves => ?_⟩
    · rw [Settings.leavesSpace_iff, stripped bold]
      exact ⟨on, bold, stray⟩
    · rw [Settings.leavesSpace_of_plain plain] at leaves
      contradiction
  | @tag _ _ _ next =>
    have plain := Line.not_isBoldTitle_of_isFenceMarker (Line.isFenceMarker_taggedFence (.infer next))
    have noStray := Line.endsInOneSpace_taggedFence (.infer next)
    refine ⟨fun stray => Bool.noConfusion (noStray.symm.trans stray), fun leaves => ?_⟩
    rw [Settings.leavesSpace_of_plain plain] at leaves
    contradiction
  | wrap _ found =>
    have wrapped := Line.wrapUrls_bracketed found
    refine ⟨fun stray => ?_, fun leaves => ?_⟩
    · rw [wrapped.endsInOneSpace_eq] at stray
      obtain ⟨source, plain⟩ := origin.stray stray
      refine ⟨source, ?_⟩
      rw [← Bool.not_eq_true] at plain ⊢
      exact plain ∘ wrapped.isBoldTitle_of_out
    · obtain ⟨on, boldOut, stray⟩ := Settings.leavesSpace_iff.mp leaves
      have bold := wrapped.isBoldTitle_of_out (Line.isBoldTitle_of_stripped boldOut)
      have noStray : edited.line.endsInOneSpace = false := by
        rw [wrapped.endsInOneSpace_eq, ← Bool.not_eq_true]
        exact fun stray => Bool.noConfusion ((origin.stray stray).2.symm.trans bold)
      rw [Line.stripped_eq_self noStray] at stray
      refine origin.leaves (Settings.leavesSpace_iff.mpr ?_)
      rw [stripped bold]
      exact ⟨on, bold, wrapped.endsInOneSpace_heading stray⟩

theorem Turn.straysFrom {m : Line} (turn : Turn s around following r m x) (other : r ≠ .trailingSpaces)
    (origin : s.StraysFrom l m) : s.StraysFrom l x.value :=
  turn.kept origin fun fix => fix.straysFrom other origin

/-- Of a line its stray space is stripped, and nothing else is left to strip than what a promotion leaves. -/
theorem editLine_strays (on : s.isEnabled .trailingSpaces = true) (around : Surroundings)
    (following : Option Line) (l : Line) :
    (s.editLine around following l).counts.get .trailingSpaces = l.endsInOneSpace.toNat ∧
      s.strays (s.editLine around following l).value ≤ (s.leavesSpace l).toNat := by
  obtain ⟨x₁, x₂, x₃, x₄, turn₁, turn₂, turn₃, turn₄, whole⟩ := s.editLine_turns around following l
  rw [whole]
  constructor
  · have first : x₁.counts.get .trailingSpaces = l.endsInOneSpace.toNat := by
      cases turn₁ with
      | fixed fix =>
        cases fix with
        | strip _ stray => rw [stray]; rfl
      | rested rests =>
        cases stray : l.endsInOneSpace with
        | false => rfl
        | true => exact absurd (.strip on stray) (rests _)
    have none₂ : x₂.counts.get .trailingSpaces = 0 := turn₂.get_other nofun
    have none₃ : x₃.counts.get .trailingSpaces = 0 := turn₃.get_other nofun
    have none₄ : x₄.counts.get .trailingSpaces = 0 := turn₄.get_other nofun
    rw [Counts.get_add, Counts.get_add, Counts.get_add, first, none₂, none₃, none₄, Nat.add_zero]
  · have origin := Settings.straysFrom_stripped on l
    rw [← turn₁.value_eq_stripped] at origin
    have origin₂ := turn₂.straysFrom nofun origin
    have origin₃ := turn₃.straysFrom nofun origin₂
    exact (turn₄.straysFrom nofun origin₃).strays_le

end MarkdownTidy
