import MarkdownTidy.Proofs.Line.UrlSearch
import MarkdownTidy.Proofs.Text.Backtracking

namespace MarkdownTidy

namespace Url

/-- A bare URL as a pattern: `(?<![<(])https?://[^\s)>]+(?![>)])`. -/
def pattern : Pattern :=
  .seq (.notAfter isOpener) <| .seq (.text "http".toList) <| .seq (.maybe (.text "s".toList)) <|
    .seq (.text "://".toList) <| .seq (.one isBodyChar) <| .seq (.many isBodyChar) (.notBefore isCloser)

variable {before : Option Char} {t : Text}

theorem not_isCloser_of_isBodyChar (c : Char) (inside : isBodyChar c = true) : isCloser c = false := by
  simp only [isBodyChar, Bool.not_eq_true', Bool.or_eq_false_iff] at inside
  rw [isCloser, inside.1.2, inside.2]
  rfl

/-- The body of a URL is what is left of a run that may not stop before a closing bracket. -/
theorem take?_body :
    (Pattern.seq (.one isBodyChar) (.seq (.many isBodyChar) (.notBefore isCloser))).take? before t =
      if (body t).isEmpty then none else some (body t) := by
  cases t with
  | nil => rfl
  | cons c rest =>
    rw [Pattern.take?_one_seq_cons, Pattern.take?_many_seq_notBefore not_isCloser_of_isBodyChar, body]
    by_cases inside : isBodyChar c = true
    · rw [if_pos inside, List.takeWhile_cons_of_pos inside, List.dropWhile_cons_of_pos inside]
      split
      · cases rest.takeWhile isBodyChar <;> simp
      · rfl
    · rw [if_neg inside, List.takeWhile_cons_of_neg inside]
      split <;> rfl

/-- What a pattern takes behind a scheme. No text starts with both schemes. -/
theorem take?_scheme_seq (pattern : Pattern) :
    (Pattern.seq (.text "http".toList) <| .seq (.maybe (.text "s".toList)) <|
        .seq (.text "://".toList) pattern).take? before t =
      (schemes.find? fun scheme => scheme.toList.isPrefixOf t).bind fun scheme =>
        (pattern.take? (scheme.toList.getLast?.or before) (t.drop scheme.toList.length)).map
          (scheme.toList ++ ·) := by
  rw [Pattern.take?_text_maybe_seq, Pattern.take?_text_text_seq, Pattern.take?_text_text_seq,
    Pattern.take?_text_text_seq]
  change ((Pattern.seq (.text "https://".toList) _).take? before t).or
    ((Pattern.seq (.text "http://".toList) _).take? before t) = _
  rw [Pattern.take?_text_seq, Pattern.take?_text_seq, schemes, List.find?_cons, List.find?_cons]
  by_cases secure : "https://".toList <+: t
  · have plain : ¬"http://".toList <+: t := fun plain =>
      absurd (List.prefix_of_prefix_length_le plain secure (by decide)) (by decide)
    rw [if_pos secure, if_neg plain, List.isPrefixOf_iff_prefix.mpr secure, Option.or_none]
    rfl
  · rw [if_neg secure, Option.none_or, (Bool.not_eq_true _).mp (mt List.isPrefixOf_iff_prefix.mp secure)]
    by_cases plain : "http://".toList <+: t
    · rw [if_pos plain, List.isPrefixOf_iff_prefix.mpr plain]
      rfl
    · rw [if_neg plain, (Bool.not_eq_true _).mp (mt List.isPrefixOf_iff_prefix.mp plain)]
      rfl

theorem take?_pattern (before : Option Char) (t : Text) : pattern.take? before t = read? before t := by
  rw [pattern, Pattern.take?_notAfter_seq, read?, take?_scheme_seq]
  split
  · rfl
  · cases schemes.find? fun scheme => scheme.toList.isPrefixOf t with
    | none => rfl
    | some scheme =>
      rw [Option.bind_some, take?_body]
      dsimp only
      split <;> rfl

/-- To cut a text at its bare URLs is to look for the pattern from left to right. -/
theorem replaceAll_pattern (before : Option Char) (t : Text) :
    pattern.replaceAll (fun u => '<' :: u ++ ['>']) before t =
      ((pieces before t).flatMap Piece.wrapped, (pieces before t).countP Piece.isUrl) := by
  fun_induction pieces before t with
  | case1 =>
    rw [Pattern.replaceAll]
    rfl
  | case2 before c rest missed ih =>
    rw [Pattern.replaceAll, take?_pattern, missed]
    dsimp only
    rw [ih]
    rfl
  | case3 before c rest u found ih =>
    obtain ⟨something, -⟩ := read?_prefix found
    obtain ⟨first, others, rfl⟩ := List.exists_cons_of_ne_nil something
    rw [Pattern.replaceAll, take?_pattern, found]
    dsimp only
    rw [List.length_cons, Nat.add_sub_cancel] at ih ⊢
    rw [ih, List.flatMap_cons, List.countP_cons_of_pos (show Piece.isUrl (.url (first :: others)) = true from rfl)]
    rfl

theorem occursIn_pattern_iff : pattern.OccursIn t ↔ (pieces none t).countP Piece.isUrl ≠ 0 := by
  have places := @countP_pieces_eq_zero_iff none t
  simp only [Option.or_none] at places
  simp only [Ne, places, Pattern.OccursIn, take?_pattern, not_forall, exists_prop,
    ← Option.isSome_iff_ne_none]

end Url

namespace Line
variable {l : Line}

/-- A Markdown link to a web address as a pattern: `\[.*\]\(http`. -/
def httpLink : Pattern :=
  .seq (.text "[".toList) (.seq (.many (· != '\n')) (.text "](http".toList))

theorem isSome_take?_httpLink {before : Option Char} {t : Text} :
    (httpLink.take? before t).isSome = true ↔
      ∃ middle, '[' :: middle ++ "](http".toList <+: t ∧ '\n' ∉ middle := by
  have inLine (middle : Text) : (∀ c ∈ middle, (c != '\n') = true) ↔ '\n' ∉ middle :=
    ⟨fun all broken => absurd (all _ broken) (by decide),
      fun absent _ member => bne_iff_ne.mpr (ne_of_mem_of_not_mem member absent)⟩
  rw [httpLink, Pattern.take?_text_seq]
  split
  · rename_i opening
    obtain ⟨rest, rfl⟩ := opening
    rw [List.drop_left, Option.isSome_map, Pattern.isSome_take?_many_seq]
    simp only [Pattern.isSome_take?_text, inLine]
    constructor
    · rintro ⟨middle, last, rfl, one, target⟩
      exact ⟨middle, (List.prefix_append_right_inj ('[' :: middle)).mpr target, one⟩
    · rintro ⟨middle, ⟨back, whole⟩, one⟩
      refine ⟨middle, "](http".toList ++ back, ?_, one, List.prefix_append _ _⟩
      rw [← List.append_assoc]
      exact (List.cons.inj whole).2
  · rename_i other
    refine ⟨nofun, ?_⟩
    rintro ⟨middle, start, -⟩
    exact absurd ((List.prefix_append "[".toList (middle ++ "](http".toList)).trans start) other

theorem hasHttpLink_iff_occursIn (unbroken : '\n' ∉ l) : l.hasHttpLink = true ↔ httpLink.OccursIn l := by
  simp only [hasHttpLink_iff, Pattern.OccursIn, isSome_take?_httpLink]
  constructor
  · rintro ⟨front, middle, rest, rfl⟩
    refine ⟨front, '[' :: middle ++ "](http".toList ++ rest, by simp, middle, List.prefix_append _ _, ?_⟩
    exact fun broken => unbroken (by simp [broken])
  · rintro ⟨front, rest, rfl, middle, start, -⟩
    exact ⟨front, middle, by simpa using start⟩

/-- On a line that is searched, wrapping URLs is to replace the pattern everywhere, from left to right, by
what it takes in brackets. -/
theorem urls_are_wrapped_where_the_pattern_is_matched (l : Line) (unbroken : '\n' ∉ l)
    (web : "http".toList <:+: l) (noLink : ¬httpLink.OccursIn l) (noAutolink : ¬"<http".toList <:+: l) :
    (l.wrapUrls = none ↔ ¬Url.pattern.OccursIn l) ∧
      ∀ edited, l.wrapUrls = some edited →
        (edited.line, edited.fixes) = Url.pattern.replaceAll (fun u => '<' :: u ++ ['>']) none l := by
  have searched : l.isUrlSearched = true := by
    rw [isUrlSearched_iff, ← Bool.not_eq_true, hasHttpLink_iff_occursIn unbroken]
    exact ⟨web, noLink, noAutolink⟩
  constructor
  · rw [Url.occursIn_pattern_iff, wrapUrls, if_pos searched, not_not]
    simp only [ite_eq_left_iff, reduceCtorEq, imp_false, not_not]
  · intro edited found
    obtain ⟨-, line, fixes⟩ := pieces_of_wrapUrls found
    rw [Url.replaceAll_pattern, line, fixes]

theorem urls_are_wrapped_up_to_brackets :
    let l : Line := "é http://ab) http://x> (http://c https://d<é>".toList
    ('\n' ∉ l ∧ "http".toList <:+: l ∧ ¬httpLink.OccursIn l ∧ ¬"<http".toList <:+: l) ∧
      Url.pattern.replaceAll (fun u => '<' :: u ++ ['>']) none l =
        ("é <http://a>b) http://x> (http://c <https://d<>é>".toList, 2) := by
  intro l
  have unbroken : '\n' ∉ l := by decide +kernel
  have web : "http".toList <:+: l := by decide +kernel
  have noLink : ¬httpLink.OccursIn l := mt (hasHttpLink_iff_occursIn unbroken).mpr (by decide +kernel)
  have noAutolink : ¬"<http".toList <:+: l := by decide +kernel
  have found : l.wrapUrls = some ⟨"é <http://a>b) http://x> (http://c <https://d<>é>".toList, 2⟩ := by
    decide +kernel
  refine ⟨⟨unbroken, web, noLink, noAutolink⟩, ?_⟩
  exact ((urls_are_wrapped_where_the_pattern_is_matched l unbroken web noLink noAutolink).2 _ found).symm

end Line
end MarkdownTidy
