import Mathlib.Data.List.Infix
import MarkdownTidy.Proofs.Line.WrappedUrls

namespace MarkdownTidy

namespace Text

/-- How often a pattern stands in a text. -/
def occurrences (pattern t : Text) : Nat :=
  t.tails.countP pattern.isPrefixOf

variable {pattern front rest t : Text} {c : Char}

theorem occurrences_cons (pattern : Text) (c : Char) (rest : Text) :
    pattern.occurrences (c :: rest) = pattern.occurrences rest + if pattern <+: c :: rest then 1 else 0 := by
  rw [occurrences, List.tails_cons, List.countP_cons]
  simp only [List.isPrefixOf_iff_prefix]
  rfl

theorem occurrences_eq_zero (absent : ¬pattern <:+: t) : pattern.occurrences t = 0 := by
  rw [occurrences, List.countP_eq_zero]
  intro back member start
  have behind := (List.mem_tails back t).mp member
  exact absent ((List.isPrefixOf_iff_prefix.mp start).isInfix.trans behind.isInfix)

/-- A pattern does not stand across a character that is not in it. -/
theorem occurrences_append_cons (some : pattern ≠ []) (absent : c ∉ pattern) :
    pattern.occurrences (front ++ c :: rest) = pattern.occurrences front + pattern.occurrences rest := by
  induction front with
  | nil =>
    have none : pattern.occurrences [] = 0 := occurrences_eq_zero (mt List.infix_nil.mp some)
    have other : ¬pattern <+: [] ++ c :: rest := by
      rw [Line.prefix_append_cons_iff absent]
      exact mt List.prefix_nil.mp some
    rw [List.nil_append] at other ⊢
    rw [occurrences_cons, if_neg other, none, Nat.add_zero, Nat.zero_add]
  | cons d front ih =>
    have start : pattern <+: d :: front ++ c :: rest ↔ pattern <+: d :: front :=
      Line.prefix_append_cons_iff absent
    rw [List.cons_append, occurrences_cons, ih, occurrences_cons, ← List.cons_append]
    simp only [start]
    omega

end Text

namespace Url

theorem flatMap_wrapped_plain (c : Char) (ps : List Piece) :
    (.plain c :: ps).flatMap Piece.wrapped = c :: ps.flatMap Piece.wrapped :=
  rfl

theorem flatMap_wrapped_url (u : Text) (ps : List Piece) :
    (.url u :: ps).flatMap Piece.wrapped = '<' :: (u ++ '>' :: ps.flatMap Piece.wrapped) :=
  congrArg ('<' :: ·) (List.append_assoc u ['>'] _)

end Url

namespace Line

/-- Drops the `<` of every `<http`, and the first `>` after each of them. That one is still to come when
`opened` holds. -/
def unwrapUrls (opened : Bool) : Text → Text
  | [] => []
  | c :: rest =>
    if c = '<' ∧ "http".toList <+: rest then unwrapUrls true rest
    else if c = '>' ∧ opened = true then unwrapUrls false rest
    else c :: unwrapUrls opened rest

variable {l : Line} {u rest : Text} {ps : List Url.Piece} {edited : Edited}

theorem prefix_opened_iff {c : Char} : "<http".toList <+: c :: rest ↔ c = '<' ∧ "http".toList <+: rest := by
  change '<' :: "http".toList <+: c :: rest ↔ _
  rw [List.cons_prefix_cons, eq_comm]

/-- No start without `<` reaches into a wrapped URL. -/
theorem prefix_text_of_prefix_wrapped (noBracket : '<' ∉ u) (start : u <+: ps.flatMap Url.Piece.wrapped) :
    u <+: ps.flatMap Url.Piece.text := by
  induction ps generalizing u with
  | nil => exact start
  | cons piece others ih =>
    cases u with
    | nil => exact List.nil_prefix
    | cons c u =>
      rw [List.flatMap_cons] at start ⊢
      cases piece with
      | plain d =>
        obtain ⟨same, later⟩ := List.cons_prefix_cons.mp start
        refine List.cons_prefix_cons.mpr ⟨same, ih ?_ later⟩
        exact fun bracket => noBracket (List.mem_cons_of_mem c bracket)
      | url v =>
        obtain ⟨rfl, -⟩ := List.cons_prefix_cons.mp start
        exact absurd List.mem_cons_self noBracket

/-- Inside of a wrapped URL there is nothing to drop. -/
theorem unwrapUrls_url (closed : '>' ∉ u) (unopened : ¬"<http".toList <:+: u) :
    unwrapUrls true (u ++ '>' :: rest) = u ++ unwrapUrls false rest := by
  induction u with
  | nil => rfl
  | cons c u ih =>
    rw [List.mem_cons, not_or] at closed
    have opens : ¬(c = '<' ∧ "http".toList <+: u ++ '>' :: rest) := by
      rw [prefix_append_cons_iff (by decide), ← prefix_opened_iff]
      exact fun start => unopened start.isInfix
    have later := ih closed.2 fun part => unopened (part.trans (List.suffix_cons c u).isInfix)
    rw [List.cons_append, unwrapUrls, if_neg opens, if_neg fun closes => closed.1 closes.1.symm, later,
      List.cons_append]

/-- What holds of the parts of a line that is wrapped. -/
structure Wrappable (ps : List Url.Piece) : Prop where
  urls : ∀ u, .url u ∈ ps → "http".toList <+: u ∧ '>' ∉ u
  unopened : ¬"<http".toList <:+: ps.flatMap Url.Piece.text

theorem Wrappable.tail {piece : Url.Piece} (wrappable : Wrappable (piece :: ps)) : Wrappable ps := by
  refine ⟨fun u member => wrappable.urls u (List.mem_cons_of_mem piece member), fun part => ?_⟩
  exact wrappable.unopened (part.trans (List.suffix_append piece.text _).isInfix)

theorem Wrappable.unopened_plain {c : Char} (wrappable : Wrappable (.plain c :: ps)) :
    ¬"<http".toList <+: c :: ps.flatMap Url.Piece.wrapped := by
  rw [prefix_opened_iff]
  rintro ⟨rfl, start⟩
  have before := prefix_text_of_prefix_wrapped (by decide) start
  exact wrappable.unopened (prefix_opened_iff.mpr ⟨rfl, before⟩).isInfix

theorem Wrappable.unopened_url (wrappable : Wrappable (.url u :: ps)) : ¬"<http".toList <:+: u :=
  fun part => wrappable.unopened (part.trans (List.prefix_append u _).isInfix)

/-- A wrapped URL is opened. -/
theorem Wrappable.opened_url (wrappable : Wrappable (.url u :: ps)) (rest : Text) :
    "<http".toList <+: '<' :: (u ++ rest) :=
  prefix_opened_iff.mpr ⟨rfl, (wrappable.urls u List.mem_cons_self).1.trans (List.prefix_append u rest)⟩

theorem Wrappable.occurrences_eq (wrappable : Wrappable ps) :
    Text.occurrences "<http".toList (ps.flatMap Url.Piece.wrapped) = ps.countP Url.Piece.isUrl := by
  induction ps with
  | nil => rfl
  | cons piece others ih =>
    have later := ih wrappable.tail
    rw [List.countP_cons]
    cases piece with
    | plain c =>
      rw [Url.flatMap_wrapped_plain, Text.occurrences_cons, if_neg wrappable.unopened_plain, later]
      rfl
    | url u =>
      rw [Url.flatMap_wrapped_url, Text.occurrences_cons, if_pos (wrappable.opened_url _),
        Text.occurrences_append_cons (by decide) (by decide),
        Text.occurrences_eq_zero wrappable.unopened_url, later, Nat.zero_add]
      rfl

theorem Wrappable.unwrapUrls_eq (wrappable : Wrappable ps) :
    unwrapUrls false (ps.flatMap Url.Piece.wrapped) = ps.flatMap Url.Piece.text := by
  induction ps with
  | nil => rfl
  | cons piece others ih =>
    have later := ih wrappable.tail
    cases piece with
    | plain c =>
      have alone := wrappable.unopened_plain
      rw [prefix_opened_iff] at alone
      rw [Url.flatMap_wrapped_plain, unwrapUrls, if_neg alone, if_neg (by simp), later]
      rfl
    | url u =>
      have closed := (wrappable.urls u List.mem_cons_self).2
      have opens := prefix_opened_iff.mp (wrappable.opened_url ('>' :: others.flatMap Url.Piece.wrapped))
      rw [Url.flatMap_wrapped_url, unwrapUrls, if_pos opens, unwrapUrls_url closed wrappable.unopened_url, later]
      rfl

theorem wrappable_of_wrapUrls (found : l.wrapUrls = some edited) : Wrappable (Url.pieces none l) := by
  refine ⟨fun u member => ?_, ?_⟩
  · obtain ⟨_, _, read⟩ := Url.read?_of_mem_pieces member
    exact ⟨(Url.isWeb_of_read? read).1, Url.closer_not_mem_of_read? read⟩
  · rw [Url.flatMap_text_pieces]
    exact not_opened_of_wrapUrls found

/-- A wrapped line tells which brackets are new: there is one `<http` for each URL, without its bracket and
the next closing one the line is as it was, and there is nothing more to wrap. -/
theorem wrapping_is_undone (l : Line) (edited : Edited) (found : l.wrapUrls = some edited) :
    (0 < edited.fixes ∧ Text.occurrences "<http".toList edited.line = edited.fixes) ∧
      unwrapUrls false edited.line = l ∧ edited.line.wrapUrls = none := by
  obtain ⟨some, line, fixes⟩ := pieces_of_wrapUrls found
  have wrappable := wrappable_of_wrapUrls found
  refine ⟨⟨?_, ?_⟩, ?_, (wrapUrls_bracketed found).wrapUrls_eq_none⟩
  · rw [fixes]
    exact Nat.pos_of_ne_zero some
  · rw [line, fixes, wrappable.occurrences_eq]
  · rw [line, wrappable.unwrapUrls_eq, Url.flatMap_text_pieces]

theorem wrapping_is_undone_between_brackets :
    wrapUrls "a > http://b<é) <i> http://c>http://d".toList =
        some ⟨"a > <http://b<>é) <i> http://c><http://d>".toList, 2⟩ ∧
      unwrapUrls false "a > <http://b<>é) <i> http://c><http://d>".toList =
        "a > http://b<é) <i> http://c>http://d".toList := by
  have found : wrapUrls "a > http://b<é) <i> http://c>http://d".toList =
      some ⟨"a > <http://b<>é) <i> http://c><http://d>".toList, 2⟩ := by decide +kernel
  exact ⟨found, (wrapping_is_undone _ _ found).2.1⟩

end Line
end MarkdownTidy
