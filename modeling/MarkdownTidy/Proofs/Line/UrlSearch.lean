import Mathlib.Data.List.Find
import MarkdownTidy.Line.BareUrl
import MarkdownTidy.Proofs.Text.Trimming

namespace MarkdownTidy

namespace Url

/-- How every bare URL looks. -/
def IsWeb (u : Text) : Prop :=
  "http".toList <+: u ∧ ∀ c ∈ u.getLast?, isSpace c = false

theorem schemes_web : ∀ scheme ∈ schemes, "http".toList <+: scheme.toList := by
  decide

theorem body_chars (t : Text) : ∀ c ∈ body t, isBodyChar c = true := by
  intro c member
  have inRun : c ∈ t.takeWhile isBodyChar := by
    unfold body at member
    split at member
    · exact (List.dropLast_sublist _).subset member
    · exact member
  exact List.mem_takeWhile_imp inRun

theorem isWeb_of_read? {before : Option Char} {t u : Text} (found : read? before t = some u) :
    IsWeb u := by
  obtain ⟨scheme, known, -, rfl, something⟩ := read?_eq_some found
  refine ⟨(schemes_web scheme known).trans (List.prefix_append _ _), ?_⟩
  intro c last
  rw [List.getLast?_append_of_ne_nil _ something] at last
  have inBody := body_chars _ c (List.mem_of_getLast? last)
  simp only [isBodyChar, Bool.not_eq_true', Bool.or_eq_false_iff] at inBody
  exact inBody.1.1

theorem closer_not_mem_of_read? {before : Option Char} {t u : Text} (found : read? before t = some u) :
    '>' ∉ u := by
  have plain : ∀ scheme ∈ schemes, '>' ∉ scheme.toList := by decide
  obtain ⟨scheme, known, -, rfl, -⟩ := read?_eq_some found
  rw [List.mem_append]
  rintro (inScheme | inBody)
  · exact plain scheme known inScheme
  · exact absurd (body_chars _ _ inBody) (by decide)

/-- The URLs among the parts of a text are read at its places. -/
theorem read?_of_mem_pieces {before : Option Char} {t u : Text} (member : .url u ∈ pieces before t) :
    ∃ before' rest, read? before' rest = some u := by
  fun_induction pieces before t with
  | case1 => contradiction
  | case2 before c rest _ ih =>
    rcases List.mem_cons.mp member with same | later
    · contradiction
    · exact ih later
  | case3 before c rest v found ih =>
    rcases List.mem_cons.mp member with same | later
    · cases same
      exact ⟨before, c :: rest, found⟩
    · exact ih later

theorem isWeb_of_mem_pieces {before : Option Char} {t u : Text} (member : .url u ∈ pieces before t) :
    IsWeb u := by
  obtain ⟨_, _, found⟩ := read?_of_mem_pieces member
  exact isWeb_of_read? found

/-- Every place of a text is looked at as long as no URL is found in it. -/
theorem countP_pieces_eq_zero_iff {before : Option Char} {t : Text} :
    (pieces before t).countP Piece.isUrl = 0 ↔
      ∀ front rest, t = front ++ rest → read? (front.getLast?.or before) rest = none := by
  fun_induction pieces before t with
  | case1 before =>
    refine ⟨fun _ front rest parts => ?_, fun _ => rfl⟩
    obtain ⟨rfl, rfl⟩ := List.append_eq_nil_iff.mp parts.symm
    rw [← Option.not_isSome_iff_eq_none, Option.isSome_iff_exists]
    rintro ⟨u, found⟩
    obtain ⟨something, start⟩ := read?_prefix found
    exact something (List.prefix_nil.mp start)
  | case2 before c rest missed ih =>
    rw [List.countP_cons_of_neg (by simp [Piece.isUrl]), ih]
    constructor
    · intro later front back parts
      cases front with
      | nil =>
        rw [← List.nil_append back, ← parts]
        exact missed
      | cons d others =>
        obtain ⟨rfl, tail⟩ := List.cons.inj parts
        rw [Text.getLast?_cons_or]
        exact later others back tail
    · intro all front back parts
      rw [← Text.getLast?_cons_or c front before]
      exact all (c :: front) back (by rw [parts, List.cons_append])
  | case3 before c rest u found ih =>
    rw [List.countP_cons_of_pos (by simp [Piece.isUrl])]
    refine ⟨fun none => by omega, fun all => ?_⟩
    have missed := all [] (c :: rest) rfl
    rw [List.getLast?_nil, Option.none_or, found] at missed
    contradiction

theorem body_append_spaces {t tail : Text} (spaces : ∀ c ∈ tail, isSpace c = true) :
    body (t ++ tail) = body t := by
  cases tail with
  | nil => rw [List.append_nil]
  | cons c rest =>
    have space := spaces c (List.mem_cons_self ..)
    have stop : isBodyChar c = false := by simp [isBodyChar, space]
    have open' : isCloser c = false := by
      rw [← Bool.not_eq_true]
      intro closer
      simp only [isCloser, Bool.or_eq_true, beq_iff_eq] at closer
      rcases closer with rfl | rfl <;> exact absurd space (by decide)
    unfold body
    rw [Text.takeWhile_append_cons stop, Text.dropWhile_append_cons stop]
    cases t.dropWhile isBodyChar with
    | nil => simp [open']
    | cons => rfl

theorem read?_append_spaces {before : Option Char} {t tail : Text}
    (spaces : ∀ c ∈ tail, isSpace c = true) : read? before (t ++ tail) = read? before t := by
  have slashes : ∀ scheme ∈ schemes, scheme.toList.getLast?.any isSpace = false := by decide
  have stays : ∀ scheme ∈ schemes, ∀ c ∈ scheme.toList.getLast?, isSpace c = false :=
    fun scheme known => Text.last_stays (slashes scheme known)
  have known : schemes.find? (fun scheme => scheme.toList.isPrefixOf (t ++ tail)) =
      schemes.find? fun scheme => scheme.toList.isPrefixOf t := by
    refine List.find?_congr fun scheme member => ?_
    rw [Bool.eq_iff_iff, List.isPrefixOf_iff_prefix, List.isPrefixOf_iff_prefix]
    exact Text.prefix_append_of_all_iff spaces (stays scheme member)
  unfold read?
  rw [known]
  split
  · rfl
  · split
    · rfl
    · rename_i scheme found
      have matched := List.find?_some found
      have start := List.isPrefixOf_iff_prefix.mp matched
      rw [List.drop_append_of_le_length start.length_le, body_append_spaces spaces]

end Url

namespace Line
variable {l : Line}

theorem hasHttpLink_iff :
    l.hasHttpLink = true ↔ ∃ front middle, front ++ '[' :: middle ++ "](http".toList <+: l := by
  unfold hasHttpLink
  constructor
  · intro link
    split at link
    · contradiction
    · rename_i opening rest found
      obtain ⟨middle, back, parts⟩ := Text.occursIn_iff_infix.mp link
      have bracket : opening = '[' := by
        have stop := List.head?_dropWhile_not (· != '[') l
        rw [found] at stop
        simpa using stop
      refine ⟨l.takeWhile (· != '['), middle, back, ?_⟩
      conv_rhs => rw [← List.takeWhile_append_dropWhile (p := (· != '[')) (l := l), found, ← parts,
        bracket]
      simp
  · rintro ⟨front, middle, back, rfl⟩
    rw [List.append_assoc, List.append_assoc, List.cons_append,
      Text.dropWhile_append_cons (by decide)]
    cases front.dropWhile (· != '[') with
    | nil => exact Text.occursIn_iff_infix.mpr ⟨middle, back, by simp⟩
    | cons _ others => exact Text.occursIn_iff_infix.mpr ⟨others ++ '[' :: middle, back, by simp⟩

theorem isUrlSearched_iff :
    l.isUrlSearched = true ↔ "http".toList <:+: l ∧ l.hasHttpLink = false ∧ ¬"<http".toList <:+: l := by
  simp only [isUrlSearched, Bool.and_eq_true, Text.occursIn_iff_infix, Bool.not_eq_true',
    Bool.or_eq_false_iff]
  rw [← @Text.occursIn_iff_infix "<http".toList, Bool.not_eq_true]

theorem pieces_of_wrapUrls {edited : Edited} (found : l.wrapUrls = some edited) :
    (Url.pieces none l).countP Url.Piece.isUrl ≠ 0 ∧
      edited.line = (Url.pieces none l).flatMap Url.Piece.wrapped ∧
      edited.fixes = (Url.pieces none l).countP Url.Piece.isUrl := by
  unfold wrapUrls at found
  split at found
  · dsimp only at found
    split at found
    · contradiction
    · rename_i some
      cases found
      exact ⟨some, rfl, rfl⟩
  · contradiction

/-- Lines with an opened address are not searched. -/
theorem not_opened_of_wrapUrls {edited : Edited} (found : l.wrapUrls = some edited) : ¬"<http".toList <:+: l := by
  unfold wrapUrls at found
  split at found
  · rename_i searched
    exact (isUrlSearched_iff.mp searched).2.2
  · contradiction

/-- An edited line holds a bare URL, and a line that is left alone none at any place. -/
theorem wrapUrls_eq_none_iff :
    l.wrapUrls = none ↔
      (l.isUrlSearched = true → ∀ front rest, l = front ++ rest → Url.read? front.getLast? rest = none) := by
  unfold wrapUrls
  split
  · rename_i searched
    dsimp only
    have places := @Url.countP_pieces_eq_zero_iff none l
    simp only [Option.or_none] at places
    split
    · rename_i none
      exact ⟨fun _ _ => places.mp none, fun _ => rfl⟩
    · rename_i some
      exact ⟨fun absent => absurd absent (by simp), fun all => absurd (places.mpr (all searched)) some⟩
  · rename_i unsearched
    exact ⟨fun _ searched => absurd searched unsearched, fun _ => rfl⟩

/-- Every scheme ends in a colon and slashes. -/
theorem colon_mem_of_wrapUrls {edited : Edited} (found : l.wrapUrls = some edited) : ':' ∈ l := by
  by_contra absent
  have alone : l.wrapUrls = none := by
    rw [wrapUrls_eq_none_iff]
    rintro - front rest rfl
    rw [← Option.not_isSome_iff_eq_none, Option.isSome_iff_exists]
    rintro ⟨u, read⟩
    obtain ⟨scheme, known, start, -⟩ := Url.read?_eq_some read
    have colon : ∀ scheme ∈ Url.schemes, ':' ∈ scheme.toList := by decide
    exact absent (List.mem_append_right front (start.subset (colon scheme known)))
  rw [alone] at found
  contradiction

theorem isUrlSearched_of_trimEnd (searched : isUrlSearched l.trimEnd = true) :
    l.isUrlSearched = true := by
  obtain ⟨web, noLink, noAutolink⟩ := isUrlSearched_iff.mp searched
  have letter : ∀ c ∈ "http".toList.getLast?, isSpace c = false := Text.last_stays (by decide)
  have letter' : ∀ c ∈ "<http".toList.getLast?, isSpace c = false := Text.last_stays (by decide)
  refine isUrlSearched_iff.mpr ⟨?_, ?_, ?_⟩
  · exact (Text.infix_dropEndWhile_iff (by decide) letter).mp web
  · rw [← Bool.not_eq_true, hasHttpLink_iff] at noLink ⊢
    rintro ⟨front, middle, start⟩
    refine noLink ⟨front, middle, (Text.prefix_dropEndWhile_iff ?_).mpr start⟩
    rw [List.getLast?_append_of_ne_nil _ (by decide)]
    exact Text.last_stays (by decide)
  · intro autolink
    exact noAutolink ((Text.infix_dropEndWhile_iff (by decide) letter').mpr autolink)

/-- White space at the end of a line hides no bare URL. -/
theorem wrapUrls_trimEnd (alone : l.wrapUrls = none) : wrapUrls l.trimEnd = none := by
  rw [wrapUrls_eq_none_iff] at alone ⊢
  intro searched front rest parts
  obtain ⟨tail, whole, spaces⟩ := Text.dropEndWhile_split isSpace l
  have place : l = front ++ (rest ++ tail) := by
    rw [← List.append_assoc, ← parts]
    exact whole.symm
  have missed := alone (isUrlSearched_of_trimEnd searched) front (rest ++ tail) place
  rwa [Url.read?_append_spaces spaces] at missed

end Line
end MarkdownTidy
