import MarkdownTidy.Proofs.Line.Fixes

namespace MarkdownTidy

/-- The characters whose number the counts of fixes account for: what URLs are wrapped in, what headings
start with, and what fences are made of. -/
def signs : List Char :=
  ['<', '>', '#', '`']

/-- How many more of a sign there are after some fixes. -/
def Settings.gained (s : Settings) (counts : Counts) (c : Char) : Nat :=
  if c = '<' ∨ c = '>' then counts.bareUrls
  else if c = '#' then s.headingLevel * counts.boldHeadings
  else 0

variable {s : Settings} {around : Surroundings} {following : Option Line} {l : Line} {r : Rule}
  {edited : Edited} {t : Text} {c : Char}

theorem holds_of_sign {p : Char → Bool} (all : signs.all p = true) (sign : c ∈ signs) : p c = true :=
  List.all_eq_true.mp all c sign

theorem gained_zero (s : Settings) (c : Char) : s.gained 0 c = 0 := by
  unfold Settings.gained
  split
  · rfl
  · split <;> rfl

theorem gained_boldHeading (s : Settings) (c : Char) :
    s.gained (.single .boldHeading 1) c = if c = '#' then s.headingLevel else 0 := by
  unfold Settings.gained
  split
  · rename_i bracket
    rcases bracket with rfl | rfl <;> rfl
  · rw [show (Counts.single .boldHeading 1).boldHeadings = 1 from rfl, Nat.mul_one]

theorem gained_bareUrl (s : Settings) (n : Nat) (c : Char) :
    s.gained (.single .bareUrl n) c = if c = '<' ∨ c = '>' then n else 0 := by
  unfold Settings.gained
  split
  · rfl
  · exact ite_self 0

theorem gained_add (s : Settings) (a b : Counts) (c : Char) :
    s.gained (a + b) c = s.gained a c + s.gained b c := by
  have urls : (a + b).bareUrls = a.bareUrls + b.bareUrls := rfl
  have headings : (a + b).boldHeadings = a.boldHeadings + b.boldHeadings := rfl
  unfold Settings.gained
  rw [urls, headings, Nat.mul_add]
  split
  · rfl
  · split <;> rfl

namespace Line

theorem count_sign_spaces (sign : c ∈ signs) (spaces : ∀ d ∈ t, isSpace d = true) : t.count c = 0 := by
  have visible : (!isSpace c) = true := holds_of_sign (p := fun c => !isSpace c) (by decide) sign
  rw [List.count_eq_zero]
  intro member
  rw [spaces c member] at visible
  contradiction

theorem count_sign_trimEnd (sign : c ∈ signs) (l : Line) : List.count c l.trimEnd = l.count c := by
  obtain ⟨tail, whole, spaces⟩ := Text.dropEndWhile_split isSpace l
  have counted := congrArg (List.count c) whole
  rw [List.count_append, count_sign_spaces sign spaces] at counted
  exact counted

theorem count_sign_heading (sign : c ∈ signs) (level : Nat) (l : Line) :
    (heading level l.titleText).count c = l.count c + if c = '#' then level else 0 := by
  have noStar : c ≠ '*' := ne_of_mem_of_not_mem sign (by decide)
  have noColon : c ≠ ':' := ne_of_mem_of_not_mem sign (by decide)
  have noSpace : c ≠ ' ' := ne_of_mem_of_not_mem sign (by decide)
  obtain ⟨indent, back, whole, spaces, dropped⟩ := titleText_split l
  have stars : (l.takeWhile (· == '*')).count c = 0 := by
    rw [List.count_eq_zero]
    intro member
    exact noStar (by simpa using List.mem_takeWhile_imp member)
  have tail : back.count c = 0 := by
    rw [List.count_eq_zero]
    intro member
    rcases dropped c member with star | space | colon
    · exact noStar star
    · have none := count_sign_spaces sign (List.forall_mem_singleton.mpr space)
      simp at none
    · exact noColon colon
  have counted := congrArg (List.count c) whole
  rw [List.count_append, List.count_append, List.count_append, stars, count_sign_spaces sign spaces,
    tail] at counted
  rw [heading, List.count_append, List.count_cons_of_ne noSpace.symm, List.count_replicate]
  simp only [beq_iff_eq, eq_comm (a := '#')]
  omega

theorem count_sign_taggedFence (sign : c ∈ signs) (bare : l.isBareFence = true) (language : Language) :
    (taggedFence language).count c = l.count c := by
  have letters : c ∉ language.tag.toList := by
    have absent := holds_of_sign (p := fun c => !language.tag.toList.contains c)
      (by cases language <;> decide) sign
    simpa using absent
  obtain ⟨indent, tail, rfl, before, behind⟩ := isBareFence_split bare
  rw [taggedFence, List.count_append, List.count_append, List.count_append,
    List.count_eq_zero.mpr letters, count_sign_spaces sign before, count_sign_spaces sign behind]
  omega

theorem count_wrapped (c : Char) (ps : List Url.Piece) :
    (ps.flatMap Url.Piece.wrapped).count c =
      (ps.flatMap Url.Piece.text).count c + if c = '<' ∨ c = '>' then ps.countP Url.Piece.isUrl else 0 := by
  induction ps with
  | nil => simp
  | cons piece others ih =>
    rw [List.flatMap_cons, List.flatMap_cons, List.count_append, List.count_append, ih, List.countP_cons]
    cases piece with
    | plain d => simp [Url.Piece.wrapped, Url.Piece.text, Url.Piece.isUrl, Nat.add_assoc]
    | url u =>
      have brackets : (Url.Piece.wrapped (.url u)).count c =
          u.count c + if c = '<' ∨ c = '>' then 1 else 0 := by
        rw [Url.Piece.wrapped, List.cons_append, List.count_cons, List.count_append]
        by_cases opening : c = '<'
        · simp [opening]
        · by_cases closing : c = '>'
          · simp [closing]
          · simp [opening, closing, Ne.symm opening, Ne.symm closing]
      rw [brackets]
      simp only [Url.Piece.text, Url.Piece.isUrl, if_true]
      split <;> omega

end Line

/-- The fixes of a line account for all signs that it gains, and it loses none. -/
theorem LineFix.count_sign (fix : LineFix s around following l r edited) (sign : c ∈ signs) :
    edited.line.count c = l.count c + s.gained (.single r edited.fixes) c := by
  cases fix with
  | strip =>
    have none : s.gained (.single .trailingSpaces 1) c = 0 := gained_zero s c
    rw [none]
    exact Line.count_sign_trimEnd sign l
  | promote =>
    rw [gained_boldHeading]
    exact Line.count_sign_heading sign s.headingLevel l
  | tag _ _ bare =>
    have none : s.gained (.single .fenceLanguage 1) c = 0 := gained_zero s c
    rw [none]
    exact Line.count_sign_taggedFence sign bare _
  | wrap _ found =>
    obtain ⟨-, line, fixes⟩ := Line.pieces_of_wrapUrls found
    have counted := Line.count_wrapped c (Url.pieces none l)
    rw [Url.flatMap_text_pieces, ← line, ← fixes] at counted
    rw [gained_bareUrl]
    exact counted

theorem editLine_count_sign (s : Settings) (around : Surroundings) (following : Option Line) (l : Line)
    (sign : c ∈ signs) :
    (s.editLine around following l).value.count c =
      l.count c + s.gained (s.editLine around following l).counts c := by
  refine s.editLine_induction (P := fun x => x.value.count c = l.count c + s.gained x.counts c) ?_ ?_
  · rw [gained_zero, Nat.add_zero]
  · intro m counts r edited before fix
    rw [fix.count_sign sign, before, gained_add, Nat.add_assoc]

end MarkdownTidy
