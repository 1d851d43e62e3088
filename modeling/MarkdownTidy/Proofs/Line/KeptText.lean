import MarkdownTidy.Proofs.Line.Fixes

namespace MarkdownTidy
namespace Settings

/-- A character that the enabled rules may take out or put in: white space, what marks bold titles and
headings, and angle brackets around URLs. -/
def isLoose (s : Settings) (c : Char) : Bool :=
  isSpace c || s.isEnabled .boldHeading && (c == '*' || c == ':' || c == '#') ||
    s.isEnabled .bareUrl && (c == '<' || c == '>')

/-- The characters of a text that are to be kept. -/
def kept (s : Settings) (t : Text) : Text :=
  t.filter fun c => !s.isLoose c

/-- A text keeps what another one holds. Without language tags it holds no more than that. -/
structure Keeps (s : Settings) (old new : Text) : Prop where
  sublist : (s.kept old).Sublist (s.kept new)
  eq_of_untagged : s.isEnabled .fenceLanguage = false → s.kept old = s.kept new

end Settings

variable {s : Settings} {around : Surroundings} {following : Option Line} {l : Line} {r : Rule}
  {edited : Edited} {t u v : Text}

theorem kept_append (s : Settings) (t u : Text) : s.kept (t ++ u) = s.kept t ++ s.kept u :=
  List.filter_append t u

theorem kept_loose (loose : ∀ c ∈ t, s.isLoose c = true) : s.kept t = [] := by
  refine List.filter_eq_nil_iff.mpr fun c member => ?_
  rw [loose c member]
  exact Bool.false_ne_true

theorem kept_spaces (spaces : ∀ c ∈ t, isSpace c = true) : s.kept t = [] :=
  kept_loose fun c member => by rw [Settings.isLoose, spaces c member, Bool.true_or, Bool.true_or]

namespace Settings.Keeps

theorem of_eq (same : s.kept t = s.kept u) : s.Keeps t u :=
  ⟨same ▸ List.Sublist.refl _, fun _ => same⟩

theorem append (front : s.Keeps t u) {t' u' : Text} (back : s.Keeps t' u') :
    s.Keeps (t ++ t') (u ++ u') := by
  refine ⟨?_, fun untagged => ?_⟩
  · rw [kept_append, kept_append]
    exact front.sublist.append back.sublist
  · rw [kept_append, kept_append, front.eq_of_untagged untagged, back.eq_of_untagged untagged]

theorem trans (first : s.Keeps t u) (second : s.Keeps u v) : s.Keeps t v :=
  ⟨first.sublist.trans second.sublist,
    fun untagged => (first.eq_of_untagged untagged).trans (second.eq_of_untagged untagged)⟩

end Settings.Keeps

theorem kept_heading (on : s.isEnabled .boldHeading = true) (l : Line) (level : Nat) :
    s.kept l = s.kept (Line.heading level l.titleText) := by
  obtain ⟨indent, back, parts, spaces, dropped⟩ := Line.titleText_split l
  have marks : ∀ c : Char, c = '*' ∨ isSpace c = true ∨ c = ':' → s.isLoose c = true := by
    rintro c (rfl | space | rfl)
    · simp [Settings.isLoose, on]
    · simp [Settings.isLoose, space]
    · simp [Settings.isLoose, on]
  have stars : s.kept (l.takeWhile (· == '*')) = [] := by
    refine kept_loose fun c member => marks c (Or.inl ?_)
    simpa using List.mem_takeWhile_imp member
  have tail : s.kept back = [] := kept_loose fun c member => marks c (dropped c member)
  have signs : s.kept (List.replicate level '#') = [] := by
    refine kept_loose fun c member => ?_
    rw [List.eq_of_mem_replicate member]
    simp [Settings.isLoose, on]
  have space : s.kept [' '] = [] := kept_spaces (List.forall_mem_singleton.mpr rfl)
  have whole := congrArg s.kept parts
  rw [kept_append, kept_append, kept_append, stars, kept_spaces spaces, tail] at whole
  rw [Line.heading, List.append_cons, kept_append, kept_append, signs, space, ← whole]
  simp

theorem kept_taggedFence (bare : l.isBareFence = true) (language : Language) :
    s.kept (Line.taggedFence language) = s.kept l ++ s.kept language.tag.toList := by
  obtain ⟨indent, tail, rfl, before, behind⟩ := Line.isBareFence_split bare
  rw [Line.taggedFence, kept_append, kept_append, kept_append, kept_spaces before, kept_spaces behind,
    List.append_nil, List.nil_append]

theorem kept_wrapped (on : s.isEnabled .bareUrl = true) (ps : List Url.Piece) :
    s.kept (ps.flatMap Url.Piece.text) = s.kept (ps.flatMap Url.Piece.wrapped) := by
  induction ps with
  | nil => rfl
  | cons piece others ih =>
    have same : s.kept piece.text = s.kept piece.wrapped := by
      cases piece with
      | plain c => rfl
      | url u =>
        have opening : s.kept ['<'] = [] := kept_loose (by simp [Settings.isLoose, on])
        have closing : s.kept ['>'] = [] := kept_loose (by simp [Settings.isLoose, on])
        change s.kept u = s.kept (['<'] ++ u ++ ['>'])
        rw [kept_append, kept_append, opening, closing, List.append_nil, List.nil_append]
    rw [List.flatMap_cons, List.flatMap_cons, kept_append, kept_append, same, ih]

theorem LineFix.keeps (fix : LineFix s around following l r edited) : s.Keeps l edited.line := by
  cases fix with
  | strip _ stray =>
    obtain ⟨tail, parts, -, spaces⟩ := Line.trimEnd_split stray
    have whole := congrArg s.kept parts
    rw [kept_append, kept_spaces spaces, List.append_nil] at whole
    exact .of_eq whole.symm
  | promote on => exact .of_eq (kept_heading on l s.headingLevel)
  | @tag on _ bare next =>
    have tagged := kept_taggedFence (s := s) bare (.infer next)
    refine ⟨?_, fun untagged => ?_⟩
    · exact tagged ▸ List.sublist_append_left _ _
    · rw [on] at untagged
      contradiction
  | wrap on found =>
    obtain ⟨-, line, -⟩ := Line.pieces_of_wrapUrls found
    have same := kept_wrapped on (Url.pieces none l)
    rw [Url.flatMap_text_pieces, ← line] at same
    exact .of_eq same

theorem editLine_keeps (s : Settings) (around : Surroundings) (following : Option Line) (l : Line) :
    s.Keeps l (s.editLine around following l).value :=
  s.editLine_induction (P := fun x => s.Keeps l x.value) (.of_eq rfl)
    fun before fix => before.trans fix.keeps

end MarkdownTidy
