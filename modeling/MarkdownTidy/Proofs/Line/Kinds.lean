import Mathlib.Data.List.TakeDrop
import MarkdownTidy.Line.Class
import MarkdownTidy.Proofs.Text.Trimming

namespace MarkdownTidy.Line
variable {l : Line}

/-- Whether a character can be part of what gives a line its kind: the indent, a fence, a number
sign, a rule or the start of an item. -/
def decidesKind (c : Char) : Bool :=
  isSpace c || isDecimalDigit c || isBulletSign c || fence.contains c || c == '.' || c == '#'

theorem fence_stays : ∀ c ∈ fence.getLast?, isSpace c = false :=
  Text.last_stays (by decide)

theorem isFenceMarker_iff : l.isFenceMarker = true ↔ fence <+: l.trimStart := by
  rw [isFenceMarker, List.isPrefixOf_iff_prefix]
  exact Text.prefix_dropEndWhile_iff fence_stays

/-- A bare fence is a fence with white space around it. -/
theorem isBareFence_split (bare : l.isBareFence = true) :
    ∃ indent tail, l = indent ++ fence ++ tail ∧ (∀ c ∈ indent, isSpace c = true) ∧
      ∀ c ∈ tail, isSpace c = true := by
  obtain ⟨tail, whole, spaces⟩ := Text.trimWhile_split isSpace l
  rw [isBareFence, beq_iff_eq] at bare
  refine ⟨l.takeWhile isSpace, tail, ?_, fun _ => List.mem_takeWhile_imp, spaces⟩
  rw [← bare]
  exact whole.symm

theorem prefix_append_cons_iff {u front rest : Text} {c : Char} (absent : c ∉ u) :
    u <+: front ++ c :: rest ↔ u <+: front := by
  refine ⟨fun start => ?_, fun start => start.trans (List.prefix_append _ _)⟩
  rcases Text.prefix_append_cases start with within | ⟨d, more, rfl, beyond⟩
  · exact within
  · obtain ⟨rfl, -⟩ := List.cons_prefix_cons.mp beyond
    exact absurd (List.mem_append_right front List.mem_cons_self) absent

/-! A character that decides nothing ends what gives a line its kind. -/

section Undecided
variable {front rest : Text} {c : Char} (undecided : decidesKind c = false)
include undecided

theorem isSpace_of_undecided : isSpace c = false := by
  simp only [decidesKind, Bool.or_eq_false_iff] at undecided
  exact undecided.1.1.1.1.1

theorem trimStart_append_cons :
    Text.trimStart (front ++ c :: rest) = Text.trimStart front ++ c :: rest :=
  Text.dropWhile_append_cons (isSpace_of_undecided undecided) front rest

theorem isBlank_append_cons : isBlank (front ++ c :: rest) = false := by
  simp [isBlank, isSpace_of_undecided undecided]

theorem isFenceMarker_append_cons : isFenceMarker (front ++ c :: rest) = isFenceMarker front := by
  have absent : c ∉ fence := by
    simp only [decidesKind, Bool.or_eq_false_iff] at undecided
    simpa using undecided.1.1.2
  rw [Bool.eq_iff_iff, isFenceMarker_iff, isFenceMarker_iff,
    trimStart_append_cons undecided]
  exact prefix_append_cons_iff absent

theorem startsWithBullet_append_cons :
    startsWithBullet (front ++ c :: rest) = startsWithBullet front := by
  simp only [decidesKind, Bool.or_eq_false_iff] at undecided
  match front with
  | [] => cases rest <;> simp [startsWithBullet, undecided]
  | [_] => simp [startsWithBullet, undecided]
  | _ :: _ :: _ => rfl

theorem startsWithNumber_append_cons :
    startsWithNumber (front ++ c :: rest) = startsWithNumber front := by
  simp only [decidesKind, Bool.or_eq_false_iff] at undecided
  cases front with
  | nil => simp [startsWithNumber, undecided]
  | cons d others =>
    simp only [startsWithNumber, List.cons_append, List.head?_cons]
    congr 1
    rw [← List.cons_append, Text.dropWhile_append_cons (by simp [undecided])]
    cases (d :: others).dropWhile isDecimalDigit with
    | nil => simpa using undecided.1.2
    | cons => rfl

theorem isListItem_append_cons : isListItem (front ++ c :: rest) = isListItem front := by
  rw [isListItem, isListItem, trimStart_append_cons undecided,
    startsWithBullet_append_cons undecided, startsWithNumber_append_cons undecided]

theorem isHeadingOrBreak_append_cons :
    isHeadingOrBreak (front ++ c :: rest) = isHeadingOrBreak front := by
  simp only [decidesKind, isBulletSign, Bool.or_eq_false_iff, beq_eq_false_iff_ne] at undecided
  have number : (front ++ c :: rest).head? = some '#' ↔ front.head? = some '#' := by
    cases front <;> simp [undecided]
  have dashes : "---".toList <+: front ++ c :: rest ↔ "---".toList <+: front :=
    prefix_append_cons_iff (by rw [show "---".toList = ['-', '-', '-'] from rfl]; simp [undecided])
  rw [Bool.eq_iff_iff]
  simp only [isHeadingOrBreak, Bool.or_eq_true, beq_iff_eq, List.isPrefixOf_iff_prefix, number,
    dashes]

end Undecided

/-! The first visible character tells much about the kind of a line. -/

section Visible
variable {c : Char} {rest : Text} (seen : l.trimStart = c :: rest)
include seen

theorem isBlank_of_visible : l.isBlank = false := by
  rw [← Bool.not_eq_true, isBlank, List.all_eq_true]
  intro spaces
  rw [Text.trimStart, List.dropWhile_eq_nil_iff.mpr spaces] at seen
  contradiction

theorem isFenceMarker_of_visible (other : fence.head? ≠ some c) : l.isFenceMarker = false := by
  rw [← Bool.not_eq_true, isFenceMarker_iff, seen]
  intro start
  exact other (congrArg some (List.cons_prefix_cons.mp start).1)

theorem isListItem_of_visible (noSign : isBulletSign c = false) (noDigit : isDecimalDigit c = false) :
    l.isListItem = false := by
  rw [isListItem, seen]
  cases rest <;> simp [startsWithBullet, startsWithNumber, noSign, noDigit]

end Visible

theorem trimStart_cons_of_not {c : Char} (visible : isSpace c = false) (rest : Text) :
    Text.trimStart (c :: rest) = c :: rest :=
  List.dropWhile_cons_of_neg (by simp [visible])

/-- A heading or a break has no indent. -/
theorem isHeadingOrBreak_start (start : l.isHeadingOrBreak = true) :
    ∃ c rest, l = c :: rest ∧ (c = '#' ∨ c = '-') := by
  simp only [isHeadingOrBreak, Bool.or_eq_true, beq_iff_eq, List.isPrefixOf_iff_prefix] at start
  rcases start with number | ⟨rest, dashes⟩
  · obtain ⟨rest, rfl⟩ := List.head?_eq_some_iff.mp number
    exact ⟨'#', rest, rfl, Or.inl rfl⟩
  · exact ⟨'-', '-' :: '-' :: rest, dashes.symm, Or.inr rfl⟩

/-- What the blank line pass wants to know about a line. -/
structure Kind where
  blank : Bool
  marker : Bool
  item : Bool
  deriving DecidableEq

def kind (l : Line) : Kind :=
  ⟨l.isBlank, l.isFenceMarker, l.isListItem⟩

/-- A line that is neither blank nor a fence marker nor a list item. -/
def Kind.other : Kind :=
  ⟨false, false, false⟩

theorem kind_numberSign (rest : Text) : kind ('#' :: rest) = .other := by
  have seen := trimStart_cons_of_not (show isSpace '#' = false from rfl) rest
  rw [kind, isBlank_of_visible seen, isFenceMarker_of_visible seen (by decide),
    isListItem_of_visible seen rfl (by decide), Kind.other]

theorem isSpace_of_isBulletSign {c : Char} (sign : isBulletSign c = true) : isSpace c = false := by
  simp only [isBulletSign, Bool.or_eq_true, beq_iff_eq] at sign
  rcases sign with (rfl | rfl) | rfl <;> rfl

/-- A bullet needs white space right behind its sign, so that two signs in a row are none. -/
theorem kind_twoSigns {c d : Char} (first : isBulletSign c = true) (second : isBulletSign d = true)
    (rest : Text) : kind (c :: d :: rest) = .other := by
  have seen := trimStart_cons_of_not (isSpace_of_isBulletSign first) (d :: rest)
  have other : fence.head? ≠ some c ∧ isDecimalDigit c = false := by
    simp only [isBulletSign, Bool.or_eq_true, beq_iff_eq] at first
    rcases first with (rfl | rfl) | rfl <;> exact ⟨by decide, by decide⟩
  have item : isListItem (c :: d :: rest) = false := by
    rw [isListItem, seen]
    simp [startsWithBullet, startsWithNumber, isSpace_of_isBulletSign second, other.2]
  rw [kind, isBlank_of_visible seen, isFenceMarker_of_visible seen other.1, item, Kind.other]

/-- A heading or a break is neither blank nor a fence marker nor a list item. -/
theorem kind_of_isHeadingOrBreak (start : l.isHeadingOrBreak = true) : l.kind = .other := by
  simp only [isHeadingOrBreak, Bool.or_eq_true, beq_iff_eq, List.isPrefixOf_iff_prefix] at start
  rcases start with number | ⟨rest, dashes⟩
  · obtain ⟨rest, rfl⟩ := List.head?_eq_some_iff.mp number
    exact kind_numberSign rest
  · rw [← dashes]
    exact kind_twoSigns rfl rfl ('-' :: rest)

/-- A fence marker is of no other kind. -/
theorem kind_of_isFenceMarker (marker : l.isFenceMarker = true) : l.kind = ⟨false, true, false⟩ := by
  obtain ⟨rest, seen⟩ := isFenceMarker_iff.mp marker
  rw [kind, isBlank_of_visible seen.symm, marker, isListItem_of_visible seen.symm rfl (by decide)]

theorem isFenceMarker_of_item_or_blank (either : l.isListItem = true ∨ l.isBlank = true) :
    l.isFenceMarker = false := by
  rw [← Bool.not_eq_true]
  intro marker
  have kinds := kind_of_isFenceMarker marker
  rcases either with item | blank
  · exact Bool.noConfusion (item.symm.trans (congrArg Kind.item kinds))
  · exact Bool.noConfusion (blank.symm.trans (congrArg Kind.blank kinds))

/-- A list item is of no other kind. -/
theorem kind_of_isListItem (item : l.isListItem = true) : l.kind = ⟨false, false, true⟩ := by
  have noMarker := isFenceMarker_of_item_or_blank (Or.inl item)
  cases seen : l.trimStart with
  | nil => simp [isListItem, seen, startsWithBullet, startsWithNumber] at item
  | cons => rw [kind, isBlank_of_visible seen, noMarker, item]

/-- A blank line is of no other kind. -/
theorem kind_of_isBlank (blank : l.isBlank = true) : l.kind = ⟨true, false, false⟩ := by
  have noItem : l.isListItem = false := by
    rw [← Bool.not_eq_true]
    exact fun item => Bool.noConfusion (blank.symm.trans (congrArg Kind.blank (kind_of_isListItem item)))
  rw [kind, blank, isFenceMarker_of_item_or_blank (Or.inr blank), noItem]

theorem isHeadingOrBreak_of_isFenceMarker (marker : l.isFenceMarker = true) :
    l.isHeadingOrBreak = false := by
  rw [← Bool.not_eq_true]
  intro start
  have kinds := (kind_of_isHeadingOrBreak start).symm.trans (kind_of_isFenceMarker marker)
  exact absurd kinds (by decide)

theorem isFenceMarker_excludes (marker : l.isFenceMarker = true) :
    l.isListItem = false ∧ l.isHeadingOrBreak = false :=
  ⟨congrArg Kind.item (kind_of_isFenceMarker marker), isHeadingOrBreak_of_isFenceMarker marker⟩

end MarkdownTidy.Line
