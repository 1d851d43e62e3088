import MarkdownTidy.Proofs.Line.BoldTitles

namespace MarkdownTidy.Line

section
variable {title : Text} (nonempty : title ≠ []) (plain : '*' ∉ title)
include nonempty plain

theorem dropWhile_star_bold (back : Text) :
    List.dropWhile (· == '*') ('*' :: '*' :: (title ++ back)) = title ++ back := by
  obtain ⟨first, others, rfl⟩ := List.exists_cons_of_ne_nil nonempty
  have other : first ≠ '*' := fun same => plain (same ▸ List.mem_cons_self)
  simp [other]

/-- Where the asterisks stand at the very end of the line, the title is all that is left. -/
theorem titleText_of_closed :
    titleText ('*' :: '*' :: (title ++ ['*', '*'])) = title.trim.dropEndWhile (· == ':') := by
  have closing : ∀ c ∈ ['*', '*'], (c == '*') = true := List.all_eq_true.mp (by decide)
  have last : ∀ c ∈ title.getLast?, (c == '*') = false := by
    intro c member
    exact beq_false_of_ne fun same => plain (same ▸ List.mem_of_getLast? member)
  rw [titleText, Text.trimWhile, dropWhile_star_bold nonempty plain, Text.dropEndWhile_append_of_all closing,
    Text.dropEndWhile_eq_self last]

/-- With white space behind them the asterisks are not at the end of the line, and stay. -/
theorem titleText_of_spaced {after : Text} (more : after ≠ []) (spaces : ∀ c ∈ after, isSpace c = true) :
    titleText ('*' :: '*' :: (title ++ '*' :: '*' :: after)) = title.trimStart ++ ['*', '*'] := by
  have last : ∀ c ∈ (title ++ '*' :: '*' :: after).getLast?, (c == '*') = false := by
    intro c member
    have parts : title ++ '*' :: '*' :: after = (title ++ ['*', '*']) ++ after := by simp
    rw [parts, List.getLast?_append_of_ne_nil _ more] at member
    have space := spaces c (List.mem_of_getLast? member)
    refine beq_false_of_ne ?_
    rintro rfl
    contradiction
  have trimmed : Text.trim (title ++ '*' :: '*' :: after) = title.trimStart ++ ['*', '*'] := by
    have none : after.dropEndWhile isSpace = [] := by
      simpa [Text.dropEndWhile] using spaces
    rw [Text.trim, Text.trimWhile, Text.dropWhile_append_cons (by decide), Text.dropEndWhile_append_cons (by decide),
      show '*' :: after = [] ++ '*' :: after from rfl, Text.dropEndWhile_append_cons (by decide), none]
    rfl
  have stays : ∀ c ∈ (title.trimStart ++ ['*', '*']).getLast?, (c == ':') = false := by simp
  rw [titleText, Text.trimWhile, dropWhile_star_bold nonempty plain, Text.dropEndWhile_eq_self last, trimmed,
    Text.dropEndWhile_eq_self stays]

end

/-- A bold title is promoted to a heading of the wanted level. If the line ends with its asterisks, the heading
holds the title and no more, without the white space at its ends and then without the colons behind it. White
space after the asterisks keeps them in the heading. -/
theorem titles_are_promoted (level : Nat) {title after : Text} (nonempty : title ≠ []) (plain : '*' ∉ title)
    (spaces : ∀ c ∈ after, isSpace c = true) :
    let bold : Line := '*' :: '*' :: (title ++ '*' :: '*' :: after)
    let kept := title.trim.dropEndWhile (· == ':')
    (after = [] → promoteTitle level bold = some { line := List.replicate level '#' ++ ' ' :: kept } ∧
      '*' ∉ kept) ∧
      (after ≠ [] → promoteTitle level bold =
        some { line := List.replicate level '#' ++ ' ' :: (title.trimStart ++ ['*', '*']) }) := by
  intro bold kept
  have accepted : bold.isBoldTitle = true := by
    refine isBoldTitle_iff.mpr ⟨title, after, rfl, nonempty, plain, ?_⟩
    exact isOptionalColon_append_spaces (t := []) rfl spaces
  have promoted : promoteTitle level bold = some { line := heading level bold.titleText } := if_pos accepted
  refine ⟨?_, fun more => ?_⟩
  · rintro rfl
    have trimmed : bold.titleText = kept := titleText_of_closed nonempty plain
    refine ⟨by rw [promoted, trimmed]; rfl, fun star => plain ?_⟩
    have inTrimmed := (Text.dropEndWhile_isPrefix _ title.trim).subset star
    have inside := (Text.dropEndWhile_isPrefix isSpace title.trimStart).subset inTrimmed
    exact (List.dropWhile_suffix isSpace).subset inside
  · rw [promoted, titleText_of_spaced nonempty plain more spaces]
    rfl

theorem titles_are_promoted_without_colons :
    (" Note:: ".toList ≠ [] ∧ '*' ∉ " Note:: ".toList) ∧
      promoteTitle 2 "** Note:: **".toList = some { line := "## Note".toList } := by
  refine ⟨by decide, ?_⟩
  have promoted := @titles_are_promoted 2 " Note:: ".toList [] (by decide) (by decide) (List.forall_mem_nil _)
  exact (promoted.1 rfl).1

/-- White space after the asterisks is part of the pattern, but keeps the asterisks from being dropped. -/
theorem asterisks_stay_before_white_space :
    ¬∀ (level : Nat) (title after : Text), title ≠ [] → '*' ∉ title → (∀ c ∈ after, isSpace c = true) →
      promoteTitle level ('*' :: '*' :: (title ++ '*' :: '*' :: after)) =
        some { line := List.replicate level '#' ++ ' ' :: title.trim.dropEndWhile (· == ':') } := by
  intro kept
  have promoted := kept 3 "Overview".toList "  ".toList (by decide) (by decide) (List.all_eq_true.mp (by decide))
  have stars : promoteTitle 3 "**Overview**  ".toList = some { line := "### Overview**".toList } := by
    decide +kernel
  have same := stars.symm.trans promoted
  revert same
  decide +kernel

end MarkdownTidy.Line
