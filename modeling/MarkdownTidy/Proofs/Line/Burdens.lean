import MarkdownTidy.Proofs.Line.Fixes

namespace MarkdownTidy

/-- How much a character weighs against a line. What fixes take away weighs more than what they put
in its place. -/
def charBurden (c : Char) : Int :=
  if isSpace c || c == '*' then 1 else if c == ':' then 0 else -1

def Line.burden : Line → Int
  | [] => 0
  | c :: rest => charBurden c + burden rest

variable {s : Settings} {around : Surroundings} {following : Option Line} {l : Line} {r : Rule}
  {edited : Edited}

namespace Line

theorem burden_cons (c : Char) (rest : Line) : burden (c :: rest) = charBurden c + burden rest := rfl

theorem burden_append (front back : Line) : burden (front ++ back) = front.burden + back.burden := by
  induction front with
  | nil => exact (Int.zero_add _).symm
  | cons c rest ih =>
    rw [List.cons_append, burden_cons, burden_cons, ih]
    omega

theorem burden_spaces (spaces : ∀ c ∈ l, isSpace c = true) : l.burden = l.length := by
  induction l with
  | nil => rfl
  | cons c rest ih =>
    obtain ⟨space, others⟩ := List.forall_mem_cons.mp spaces
    have here : charBurden c = 1 := by simp [charBurden, space]
    rw [burden_cons, here, ih others, List.length_cons]
    omega

theorem burden_nonneg (dropped : ∀ c ∈ l, c = '*' ∨ isSpace c = true ∨ c = ':') : 0 ≤ l.burden := by
  induction l with
  | nil => exact le_refl 0
  | cons c rest ih =>
    obtain ⟨first, others⟩ := List.forall_mem_cons.mp dropped
    have here : 0 ≤ charBurden c := by
      unfold charBurden
      rcases first with rfl | space | rfl
      · decide
      · simp [space]
      · decide
    have later := ih others
    rw [burden_cons]
    omega

theorem burden_trimEnd_lt (stray : l.endsInOneSpace = true) : burden l.trimEnd + 1 ≤ l.burden := by
  obtain ⟨tail, whole, some, spaces⟩ := trimEnd_split stray
  have weight := burden_append l.trimEnd tail
  rw [whole, burden_spaces spaces] at weight
  have := List.length_pos_iff.mpr some
  omega

theorem burden_heading (level : Nat) (title : Text) :
    burden (heading level title) = 1 + burden title - level := by
  induction level with
  | zero => simp [heading, burden_cons, charBurden, show isSpace ' ' = true from rfl]
  | succ n ih =>
    have sign : charBurden '#' = -1 := by decide
    change burden ('#' :: heading n title) = _
    rw [burden_cons, ih, sign]
    omega

/-- A heading puts one space in place of the asterisks of a bold title. -/
theorem burden_heading_lt (bold : l.isBoldTitle = true) (level : Nat) :
    burden (heading level l.titleText) + 1 ≤ l.burden := by
  obtain ⟨indent, back, whole, spaces, dropped⟩ := titleText_split l
  have stars : 2 ≤ burden (l.takeWhile (· == '*')) := by
    obtain ⟨title, after, rfl, -⟩ := isBoldTitle_iff.mp bold
    have star : charBurden '*' = 1 := by decide
    have others : 0 ≤ burden ((title ++ '*' :: '*' :: after).takeWhile (· == '*')) := by
      refine burden_nonneg fun c member => Or.inl ?_
      simpa using List.mem_takeWhile_imp member
    change 2 ≤ burden ('*' :: '*' :: (title ++ '*' :: '*' :: after).takeWhile (· == '*'))
    rw [burden_cons, burden_cons, star]
    omega
  -- One of two asterisks pays for the space of the heading, the other for the fix.
  have weight := congrArg burden whole
  rw [burden_append, burden_append, burden_append, burden_spaces spaces] at weight
  have rest := burden_nonneg dropped
  rw [burden_heading]
  omega

theorem burden_taggedFence_lt (bare : l.isBareFence = true) (language : Language) :
    burden (taggedFence language) + 1 ≤ l.burden := by
  obtain ⟨indent, tail, rfl, before, behind⟩ := isBareFence_split bare
  have tagged : burden (taggedFence language) + 1 ≤ burden fence := by
    cases language <;> decide
  rw [burden_append, burden_append, burden_spaces before, burden_spaces behind]
  omega

theorem burden_wrapped (ps : List Url.Piece) :
    burden (ps.flatMap Url.Piece.wrapped) + 2 * ps.countP Url.Piece.isUrl =
      burden (ps.flatMap Url.Piece.text) := by
  induction ps with
  | nil => rfl
  | cons piece others ih =>
    rw [List.flatMap_cons, List.flatMap_cons, burden_append, burden_append, List.countP_cons]
    cases piece with
    | plain c =>
      simp only [Url.Piece.wrapped, Url.Piece.text, Url.Piece.isUrl, Bool.false_eq_true, if_false]
      omega
    | url u =>
      have brackets : burden (Url.Piece.wrapped (.url u)) = burden u - 2 := by
        have opening : charBurden '<' = -1 := by decide
        have closing : burden ['>'] = -1 := by decide
        rw [Url.Piece.wrapped, List.cons_append, burden_cons, burden_append, opening, closing]
        omega
      rw [brackets]
      simp only [Url.Piece.text, Url.Piece.isUrl, if_true]
      omega

theorem burden_wrapUrls (found : l.wrapUrls = some edited) :
    edited.line.burden + edited.fixes ≤ l.burden := by
  obtain ⟨-, line, fixes⟩ := pieces_of_wrapUrls found
  have weight := burden_wrapped (Url.pieces none l)
  rw [Url.flatMap_text_pieces] at weight
  rw [line, fixes]
  omega

end Line

/-- Each fix takes at least its count off the burden of the line. -/
theorem LineFix.burden_le (fix : LineFix s around following l r edited) :
    edited.line.burden + edited.fixes ≤ l.burden := by
  cases fix with
  | strip _ stray => exact Line.burden_trimEnd_lt stray
  | promote _ _ bold => exact Line.burden_heading_lt bold s.headingLevel
  | tag _ _ bare => exact Line.burden_taggedFence_lt bare _
  | wrap _ found => exact Line.burden_wrapUrls found

theorem editLine_burden (s : Settings) (around : Surroundings) (following : Option Line) (l : Line) :
    (s.editLine around following l).value.burden + (s.editLine around following l).counts.total ≤
      l.burden := by
  refine s.editLine_induction (P := fun x => x.value.burden + x.counts.total ≤ l.burden) ?_ ?_
  · exact (Int.add_zero _).le
  · intro m c r edited before fix
    have less := fix.burden_le
    change m.burden + (c.total : Int) ≤ l.burden at before
    change edited.line.burden + ((c + Counts.single r edited.fixes).total : Int) ≤ l.burden
    rw [Counts.total_add, Counts.total_single]
    omega

end MarkdownTidy
