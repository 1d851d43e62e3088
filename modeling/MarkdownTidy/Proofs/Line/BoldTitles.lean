import MarkdownTidy.Line.BoldTitle
import MarkdownTidy.Proofs.Line.Kinds

namespace MarkdownTidy.Line
variable {l : Line}

theorem isOptionalColon_chars {t : Text} (colon : isOptionalColon t = true) :
    ∀ c ∈ t, isSpace c = true ∨ c = ':' := by
  intro c member
  rw [← List.takeWhile_append_dropWhile (p := isSpace) (l := t)] at member
  rcases List.mem_append.mp member with indent | later
  · exact Or.inl (List.mem_takeWhile_imp indent)
  · unfold isOptionalColon at colon
    change c ∈ t.trimStart at later
    split at colon
    · simp_all
    · rename_i d rest shape
      simp only [Bool.and_eq_true, beq_iff_eq, List.all_eq_true] at colon
      rw [shape] at later
      rcases List.mem_cons.mp later with rfl | after
      · exact Or.inr colon.1
      · exact Or.inl (colon.2 c after)

theorem isOptionalColon_append_spaces {t tail : Text} (colon : isOptionalColon t = true)
    (spaces : ∀ c ∈ tail, isSpace c = true) : isOptionalColon (t ++ tail) = true := by
  unfold isOptionalColon at colon ⊢
  rw [Text.trimStart_append]
  cases trimmed : t.trimStart with
  | nil => simp [Text.trimStart, List.dropWhile_eq_nil_iff.mpr spaces]
  | cons c rest =>
    rw [trimmed] at colon
    simp_all

/-- The parts of a bold title line: the title between its asterisks, and what follows. -/
theorem isBoldTitle_iff :
    l.isBoldTitle = true ↔ ∃ title after, l = '*' :: '*' :: (title ++ '*' :: '*' :: after) ∧
      title ≠ [] ∧ '*' ∉ title ∧ isOptionalColon after = true := by
  constructor
  · intro bold
    unfold isBoldTitle at bold
    split at bold
    · rename_i rest
      rw [List.span_eq_takeWhile_dropWhile] at bold
      split at bold
      · rename_i first others after cut
        obtain ⟨title, later⟩ := Prod.mk.inj cut
        refine ⟨first :: others, after, ?_, by simp, ?_, bold⟩
        · rw [← later, ← title, List.takeWhile_append_dropWhile]
        · rw [← title]
          intro star
          simpa using List.mem_takeWhile_imp star
      · contradiction
    · contradiction
  · rintro ⟨title, after, rfl, nonempty, plain, colon⟩
    have all : ∀ c ∈ title, (c != '*') = true := by
      intro c member
      simpa using fun same : c = '*' => plain (same ▸ member)
    have cut : (title ++ '*' :: '*' :: after).span (· != '*') = (title, '*' :: '*' :: after) := by
      rw [List.span_eq_takeWhile_dropWhile, List.takeWhile_append_of_pos all,
        List.dropWhile_append_of_pos all]
      simp
    obtain ⟨first, others, rfl⟩ := List.exists_cons_of_ne_nil nonempty
    simpa only [isBoldTitle, cut] using colon

theorem kind_of_isBoldTitle (bold : l.isBoldTitle = true) : l.kind = .other := by
  obtain ⟨title, after, rfl, -⟩ := isBoldTitle_iff.mp bold
  exact kind_twoSigns rfl rfl _

theorem isHeadingOrBreak_of_isBoldTitle (bold : l.isBoldTitle = true) :
    l.isHeadingOrBreak = false := by
  rw [← Bool.not_eq_true]
  intro start
  obtain ⟨title, after, rfl, -⟩ := isBoldTitle_iff.mp bold
  obtain ⟨c, rest, same, sign⟩ := isHeadingOrBreak_start start
  obtain ⟨rfl, -⟩ := List.cons.inj same
  rcases sign with sign | sign <;> simp at sign

/-- White space at the end does not make a line a bold title. -/
theorem isBoldTitle_of_trimEnd (bold : isBoldTitle l.trimEnd = true) : l.isBoldTitle = true := by
  obtain ⟨title, after, shape, nonempty, plain, colon⟩ := isBoldTitle_iff.mp bold
  obtain ⟨tail, whole, spaces⟩ := Text.dropEndWhile_split isSpace l
  refine isBoldTitle_iff.mpr ⟨title, after ++ tail, ?_, nonempty, plain,
    isOptionalColon_append_spaces colon spaces⟩
  rw [← whole]
  change l.trimEnd ++ tail = _
  rw [shape]
  simp

/-- What is cut off around a title: asterisks and white space before it, and colons too after it. -/
theorem titleText_split (l : Line) :
    ∃ indent back, l.takeWhile (· == '*') ++ indent ++ l.titleText ++ back = l ∧
      (∀ c ∈ indent, isSpace c = true) ∧
      ∀ c ∈ back, c = '*' ∨ isSpace c = true ∨ c = ':' := by
  let bold := l.trimWhile (· == '*')
  obtain ⟨stars, outer, starsAll⟩ := Text.trimWhile_split (· == '*') l
  obtain ⟨spaces, inner, spacesAll⟩ := Text.trimWhile_split isSpace bold
  obtain ⟨colons, title, colonsAll⟩ := Text.dropEndWhile_split (· == ':') bold.trim
  refine ⟨bold.takeWhile isSpace, colons ++ spaces ++ stars, ?_, ?_, ?_⟩
  · have title' : l.titleText ++ colons = bold.trim := title
    have inner' : bold.takeWhile isSpace ++ bold.trim ++ spaces = bold := inner
    calc l.takeWhile (· == '*') ++ bold.takeWhile isSpace ++ l.titleText ++
          (colons ++ spaces ++ stars)
        = l.takeWhile (· == '*') ++
            (bold.takeWhile isSpace ++ (l.titleText ++ colons) ++ spaces) ++ stars := by simp
      _ = l.takeWhile (· == '*') ++ bold ++ stars := by rw [title', inner']
      _ = l := outer
  · exact fun c member => List.mem_takeWhile_imp member
  · intro c member
    rcases List.mem_append.mp member with inside | star
    · rcases List.mem_append.mp inside with colon | space
      · exact Or.inr (Or.inr (by simpa using colonsAll c colon))
      · exact Or.inr (Or.inl (spacesAll c space))
    · exact Or.inl (by simpa using starsAll c star)

theorem heading_numberSign {level : Nat} (positive : 1 ≤ level) (title : Text) :
    ∃ rest, heading level title = '#' :: rest := by
  obtain ⟨others, rfl⟩ := Nat.exists_eq_add_of_le' positive
  exact ⟨List.replicate others '#' ++ ' ' :: title, rfl⟩

end MarkdownTidy.Line
