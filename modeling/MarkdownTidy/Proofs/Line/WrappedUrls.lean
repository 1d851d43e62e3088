import MarkdownTidy.Proofs.Line.BoldTitles
import MarkdownTidy.Proofs.Line.StraySpaces
import MarkdownTidy.Proofs.Line.UrlSearch

namespace MarkdownTidy.Line

/-- What wrapping makes of a line. Between the first bracket and the last one, `outer` is `inner`
with more brackets in it. The rest of the line is as it was. -/
def Bracketed (l out : Line) : Prop :=
  ∃ front inner outer back, l = front ++ inner ++ back ∧ out = front ++ '<' :: (outer ++ '>' :: back) ∧
    Url.IsWeb inner ∧ "http".toList <+: outer ∧ inner.Sublist outer

theorem flatMap_wrapped_of_plain {ps : List Url.Piece} (none : ps.countP Url.Piece.isUrl = 0) :
    ps.flatMap Url.Piece.wrapped = ps.flatMap Url.Piece.text := by
  rw [List.countP_eq_zero] at none
  refine List.flatMap_congr fun piece member => ?_
  cases piece with
  | plain c => rfl
  | url u => exact absurd rfl (none _ member)

theorem bracketed_of_pieces {ps : List Url.Piece} (webs : ∀ u, .url u ∈ ps → Url.IsWeb u)
    (found : ps.countP Url.Piece.isUrl ≠ 0) :
    Bracketed (ps.flatMap Url.Piece.text) (ps.flatMap Url.Piece.wrapped) := by
  induction ps with
  | nil => contradiction
  | cons piece others ih =>
    have websLater : ∀ u, .url u ∈ others → Url.IsWeb u :=
      fun u member => webs u (List.mem_cons_of_mem _ member)
    cases piece with
    | plain c =>
      rw [List.countP_cons_of_neg (by simp [Url.Piece.isUrl])] at found
      obtain ⟨front, inner, outer, back, before, after, parts⟩ := ih websLater found
      refine ⟨c :: front, inner, outer, back, ?_, ?_, parts⟩
      · simp [before, Url.Piece.text]
      · simp [after, Url.Piece.wrapped]
    | url u =>
      have web := webs u (List.mem_cons_self ..)
      by_cases last : others.countP Url.Piece.isUrl = 0
      · refine ⟨[], u, u, others.flatMap Url.Piece.text, ?_, ?_, web, web.1, List.Sublist.refl u⟩
        · simp [Url.Piece.text]
        · simp [flatMap_wrapped_of_plain last, Url.Piece.wrapped]
      · obtain ⟨front, inner, outer, back, before, after, ends, _, sublist⟩ := ih websLater last
        refine ⟨[], u ++ (front ++ inner), u ++ '>' :: (front ++ '<' :: outer), back, ?_, ?_,
          ⟨?_, ?_⟩, ?_, ?_⟩
        · simp [before, Url.Piece.text]
        · simp [after, Url.Piece.wrapped]
        · exact web.1.trans (List.prefix_append _ _)
        · have something : inner ≠ [] := by
            rintro rfl
            exact absurd (List.prefix_nil.mp ends.1) (by decide)
          rw [← List.append_assoc, List.getLast?_append_of_ne_nil _ something]
          exact ends.2
        · exact web.1.trans (List.prefix_append _ _)
        · exact ((List.Sublist.refl u).append (((List.Sublist.refl front).append (sublist.cons _)).cons _))

theorem wrapUrls_bracketed {l : Line} {edited : Edited} (found : l.wrapUrls = some edited) :
    Bracketed l edited.line := by
  obtain ⟨some, line, -⟩ := pieces_of_wrapUrls found
  have wrapped := bracketed_of_pieces (fun u => Url.isWeb_of_mem_pieces) some
  rwa [Url.flatMap_text_pieces, ← line] at wrapped

namespace Bracketed
variable {l out : Line} (h : Bracketed l out)
include h

/-- The line and the wrapped one agree up to a character that gives no line its kind. -/
theorem common_front :
    ∃ front rest rest', l = front ++ 'h' :: rest ∧ out = front ++ '<' :: rest' := by
  obtain ⟨front, inner, outer, back, rfl, rfl, ⟨⟨rest, web⟩, _⟩, _⟩ := h
  exact ⟨front, "ttp".toList ++ rest ++ back, outer ++ '>' :: back, by simp [← web], rfl⟩

theorem kind_eq : out.kind = l.kind := by
  obtain ⟨front, rest, rest', rfl, rfl⟩ := h.common_front
  have letter : decidesKind 'h' = false := by decide
  have bracket : decidesKind '<' = false := by decide
  rw [kind, kind, isBlank_append_cons bracket, isBlank_append_cons letter,
    isFenceMarker_append_cons bracket, isFenceMarker_append_cons letter,
    isListItem_append_cons bracket, isListItem_append_cons letter]

theorem isHeadingOrBreak_eq : out.isHeadingOrBreak = l.isHeadingOrBreak := by
  obtain ⟨front, rest, rest', rfl, rfl⟩ := h.common_front
  rw [isHeadingOrBreak_append_cons (by decide), isHeadingOrBreak_append_cons (by decide)]

theorem head?_numberSign : out.head? = some '#' ↔ l.head? = some '#' := by
  obtain ⟨front, rest, rest', rfl, rfl⟩ := h.common_front
  cases front <;> simp

theorem isBareFence_eq_false : out.isBareFence = false := by
  rw [← Bool.not_eq_true, isBareFence, beq_iff_eq]
  intro bare
  obtain ⟨front, inner, outer, back, -, rfl, -⟩ := h
  have inFence : '<' ∈ fence := bare ▸ Text.mem_trim (by simp) rfl
  revert inFence
  decide

theorem opened : "<http".toList <:+: out := by
  obtain ⟨front, inner, outer, back, rfl, rfl, _, ⟨rest, web⟩, _⟩ := h
  exact ⟨front, rest ++ '>' :: back, by simp [← web]⟩

theorem wrapUrls_eq_none : out.wrapUrls = none := by
  rw [wrapUrls_eq_none_iff]
  intro searched
  exact absurd h.opened (isUrlSearched_iff.mp searched).2.2

theorem endsInOneSpace_eq : out.endsInOneSpace = l.endsInOneSpace := by
  obtain ⟨front, inner, outer, back, rfl, rfl, ⟨⟨rest, web⟩, visible⟩, _⟩ := h
  obtain ⟨start, last, rfl⟩ : ∃ start last, inner = start ++ [last] := by
    refine ⟨_, _, (List.dropLast_append_getLast ?_).symm⟩
    rintro rfl
    simp at web
  have same := endsInOneSpace_congr (show isSpace '>' = false from rfl) (visible last (by simp))
    (front ++ '<' :: outer) (front ++ start) back
  simpa using same

/-- Brackets stand inside the title of a bold title line, and the title holds no asterisk without
them either. -/
theorem isBoldTitle_of_out (bold : out.isBoldTitle = true) : l.isBoldTitle = true := by
  obtain ⟨title, after, shape, -, plain, colon⟩ := isBoldTitle_iff.mp bold
  obtain ⟨front, inner, outer, back, rfl, rfl, web, -, sublist⟩ := h
  have absent {c : Char} (visible : isSpace c = false) (other : c ≠ ':') (noStar : c ≠ '*') :
      c ∉ '*' :: '*' :: after := by
    simp only [List.mem_cons, noStar, false_or]
    intro member
    rcases isOptionalColon_chars colon c member with space | same
    · exact absurd space (by simp [visible])
    · exact other same
  have whole : ('*' :: '*' :: title) ++ '*' :: '*' :: after =
      front ++ '<' :: (outer ++ '>' :: back) := shape.symm
  obtain ⟨middle, opening, closing⟩ := Text.cut_append (absent rfl (by decide) (by decide)) whole
  obtain ⟨rest, inTitle, last⟩ :=
    Text.cut_append (absent rfl (by decide) (by decide)) closing.symm
  obtain ⟨start, rfl, titleParts⟩ : ∃ start, front = '*' :: '*' :: start ∧
      title = start ++ '<' :: middle := by
    match front, opening with
    | _ :: _ :: start, opening =>
      simp only [List.cons_append, List.cons.injEq] at opening
      obtain ⟨rfl, rfl, titleParts⟩ := opening
      exact ⟨start, rfl, titleParts⟩
  rw [inTitle] at titleParts
  refine isBoldTitle_iff.mpr ⟨start ++ inner ++ rest, after, ?_, ?_, ?_, colon⟩
  · simp [last]
  · intro empty
    obtain ⟨⟨letters, letters'⟩, -⟩ := web
    simp [← letters'] at empty
  · intro star
    refine plain ?_
    rw [titleParts]
    rcases List.mem_append.mp star with early | late
    · rcases List.mem_append.mp early with first | second
      · simp [first]
      · simp [sublist.subset second]
    · simp [late]

end Bracketed

end MarkdownTidy.Line
