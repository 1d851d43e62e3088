import Mathlib.Data.List.DropRight
import MarkdownTidy.Text.WhiteSpace

namespace MarkdownTidy.Text
variable {p : Char → Bool} {t u : Text}

/-- What is dropped from the end of a text belongs to the class. -/
theorem dropEndWhile_split (p : Char → Bool) (t : Text) :
    ∃ tail, t.dropEndWhile p ++ tail = t ∧ ∀ c ∈ tail, p c = true :=
  ⟨t.rtakeWhile p, List.rdropWhile_append_rtakeWhile, fun _ => List.mem_rtakeWhile_imp⟩

theorem dropEndWhile_isPrefix (p : Char → Bool) (t : Text) : t.dropEndWhile p <+: t :=
  List.rdropWhile_prefix p t

theorem not_last_dropEndWhile (p : Char → Bool) (t : Text) :
    ∀ c ∈ (t.dropEndWhile p).getLast?, p c = false := by
  intro c last
  have nonempty : t.dropEndWhile p ≠ [] := by
    intro empty
    simp [empty] at last
  have same : (t.dropEndWhile p).getLast nonempty = c := by
    simpa [List.getLast?_eq_getLast_of_ne_nil nonempty] using last
  have kept := List.rdropWhile_last_not p t nonempty
  exact same ▸ (Bool.not_eq_true _).mp kept

theorem last_stays (outside : u.getLast?.any p = false) : ∀ c ∈ u.getLast?, p c = false := by
  intro c last
  rw [Option.mem_def.mp last] at outside
  exact outside

/-- The last character of a text that stands behind another character. -/
theorem getLast?_cons_or (c : Char) (front : Text) (before : Option Char) :
    (c :: front).getLast?.or before = front.getLast?.or (some c) := by
  rw [List.getLast?_cons]
  cases front.getLast? <;> rfl

/-- A start of two parts of a text lies in the first part, or reaches into the second one. -/
theorem prefix_append_cases {front back : Text} (start : u <+: front ++ back) :
    u <+: front ∨ ∃ c more, u = front ++ c :: more ∧ c :: more <+: back := by
  rcases List.prefix_or_prefix_of_prefix start (List.prefix_append front back) with
    within | ⟨more, longer⟩
  · exact Or.inl within
  · rw [← longer, List.prefix_append_right_inj] at start
    cases more with
    | nil =>
      rw [List.append_nil] at longer
      exact Or.inl (longer ▸ List.prefix_refl front)
    | cons c others => exact Or.inr ⟨c, others, longer.symm, start⟩

/-- A start whose own end is outside a class does not reach into an end of that class. -/
theorem prefix_append_of_all_iff {tail : Text} (all : ∀ c ∈ tail, p c = true)
    (stays : ∀ c ∈ u.getLast?, p c = false) : u <+: t ++ tail ↔ u <+: t := by
  refine ⟨fun start => ?_, fun start => start.trans (List.prefix_append t tail)⟩
  rcases prefix_append_cases start with within | ⟨c, more, rfl, beyond⟩
  · exact within
  · have some : c :: more ≠ [] := List.cons_ne_nil c more
    have inTail := all _ (beyond.subset (List.getLast_mem some))
    have outside := stays ((c :: more).getLast some) (by
      rw [List.getLast?_append_of_ne_nil t some, List.getLast?_eq_getLast_of_ne_nil some]
      rfl)
    rw [inTail] at outside
    contradiction

/-- Dropping from the end cannot cut into a start whose own end stays. -/
theorem prefix_dropEndWhile_iff (stays : ∀ c ∈ u.getLast?, p c = false) :
    u <+: t.dropEndWhile p ↔ u <+: t := by
  obtain ⟨tail, whole, dropped⟩ := dropEndWhile_split p t
  conv_rhs => rw [← whole]
  exact (prefix_append_of_all_iff dropped stays).symm

/-- Dropping from the end keeps every part whose own end stays. -/
theorem infix_dropEndWhile_iff (nonempty : u ≠ []) (stays : ∀ c ∈ u.getLast?, p c = false) :
    u <:+: t.dropEndWhile p ↔ u <:+: t := by
  constructor
  · intro part
    exact part.trans (dropEndWhile_isPrefix p t).isInfix
  · rintro ⟨front, back, whole⟩
    have start : front ++ u <+: t.dropEndWhile p := by
      refine (prefix_dropEndWhile_iff ?_).mpr ⟨back, whole⟩
      rwa [List.getLast?_append_of_ne_nil _ nonempty]
    exact (List.suffix_append front u).isInfix.trans start.isInfix

theorem infix_dropWhile_iff (nonempty : u ≠ []) (stays : ∀ c ∈ u.head?, p c = false) :
    u <:+: t.dropWhile p ↔ u <:+: t := by
  have last : ∀ c ∈ u.reverse.getLast?, p c = false := by rwa [List.getLast?_reverse]
  have backwards : u.reverse <:+: dropEndWhile p t.reverse ↔ u.reverse <:+: t.reverse :=
    infix_dropEndWhile_iff (by simpa using nonempty) last
  rwa [dropEndWhile, List.reverse_reverse, List.reverse_infix, List.reverse_infix] at backwards

/-- Trimming keeps every part that holds nothing of the class. -/
theorem infix_trimWhile_iff (nonempty : u ≠ []) (outside : ∀ c ∈ u, p c = false) :
    u <:+: t.trimWhile p ↔ u <:+: t := by
  have last : ∀ c ∈ u.getLast?, p c = false := fun c member => outside c (List.mem_of_getLast? member)
  have first : ∀ c ∈ u.head?, p c = false := fun c member => outside c (List.mem_of_mem_head? member)
  exact (infix_dropEndWhile_iff nonempty last).trans (infix_dropWhile_iff nonempty first)

theorem dropEndWhile_append_of_all {tail : Text} (all : ∀ c ∈ tail, p c = true) :
    (t ++ tail).dropEndWhile p = t.dropEndWhile p := by
  simp only [dropEndWhile, List.reverse_append]
  rw [List.dropWhile_append_of_pos (by simpa using all)]

/-- What is trimmed off a text belongs to the class. -/
theorem trimWhile_split (p : Char → Bool) (t : Text) :
    ∃ tail, t.takeWhile p ++ t.trimWhile p ++ tail = t ∧ ∀ c ∈ tail, p c = true := by
  obtain ⟨tail, whole, dropped⟩ := dropEndWhile_split p (t.dropWhile p)
  refine ⟨tail, ?_, dropped⟩
  rw [trimWhile, List.append_assoc, whole, List.takeWhile_append_dropWhile]

theorem mem_trim {c : Char} (member : c ∈ t) (visible : isSpace c = false) : c ∈ t.trim := by
  obtain ⟨tail, whole, spaces⟩ := trimWhile_split isSpace t
  rw [← whole] at member
  rcases List.mem_append.mp member with early | late
  · rcases List.mem_append.mp early with indent | inside
    · exact absurd (List.mem_takeWhile_imp indent) (by simp [visible])
    · exact inside
  · exact absurd (spaces c late) (by simp [visible])

/-- A character that is not in the second part of a text stands in the first one. -/
theorem cut_append {first second front back : Text} {c : Char} (absent : c ∉ second)
    (parts : first ++ second = front ++ c :: back) :
    ∃ middle, first = front ++ c :: middle ∧ back = middle ++ second := by
  rcases List.append_eq_append_iff.mp parts with ⟨middle, _, beyond⟩ | ⟨middle, within, rest⟩
  · exact absurd (by simp [beyond]) absent
  · cases middle with
    | nil => exact absurd (by simp [← show c :: back = second from rest]) absent
    | cons d middle =>
      obtain ⟨rfl, later⟩ := List.cons.inj rest
      exact ⟨middle, within, later⟩

theorem trimStart_append (t u : Text) :
    (t ++ u).trimStart = if t.trimStart.isEmpty then u.trimStart else t.trimStart ++ u :=
  List.dropWhile_append

theorem dropWhile_append_cons {c : Char} (stays : p c = false) (front back : Text) :
    (front ++ c :: back).dropWhile p = front.dropWhile p ++ c :: back := by
  rw [List.dropWhile_append]
  split
  · rename_i dropped
    rw [List.isEmpty_iff.mp dropped, List.dropWhile_cons_of_neg (by simp [stays]), List.nil_append]
  · rfl

theorem dropEndWhile_append_cons {c : Char} (stays : p c = false) (front back : Text) :
    (front ++ c :: back).dropEndWhile p = front ++ c :: back.dropEndWhile p := by
  have backwards : (front ++ c :: back).reverse = back.reverse ++ c :: front.reverse := by simp
  rw [dropEndWhile, backwards, dropWhile_append_cons stays]
  simp [dropEndWhile]

/-- Dropping from the end stops in the second part of a text if it leaves anything of that part. -/
theorem dropEndWhile_append_of_ne_nil (left : u.dropEndWhile p ≠ []) (t : Text) :
    (t ++ u).dropEndWhile p = t ++ u.dropEndWhile p := by
  have some : (u.reverse.dropWhile p).isEmpty = false := by
    simpa [dropEndWhile] using left
  rw [dropEndWhile, List.reverse_append, List.dropWhile_append, some]
  simp [dropEndWhile]

theorem takeWhile_append_cons {c : Char} (stays : p c = false) (front back : Text) :
    (front ++ c :: back).takeWhile p = front.takeWhile p := by
  rw [List.takeWhile_append]
  split
  · rename_i taken
    rw [List.takeWhile_cons_of_neg (by simp [stays]), List.append_nil]
    exact ((List.takeWhile_prefix p).eq_of_length taken).symm
  · rfl

theorem dropEndWhile_eq_self (stays : ∀ c ∈ t.getLast?, p c = false) : t.dropEndWhile p = t := by
  refine List.rdropWhile_eq_self_iff.mpr fun nonempty => ?_
  rw [stays _ (List.getLast?_eq_some_getLast nonempty)]
  exact Bool.false_ne_true

/-- It does not matter which end of a text is trimmed first. -/
theorem trimStart_trimEnd (t : Text) : t.trimEnd.trimStart = t.trim := by
  obtain ⟨tail, whole, spaces⟩ := dropEndWhile_split isSpace t
  have last := not_last_dropEndWhile isSpace t
  change t.trimEnd ++ tail = t at whole
  change ∀ c ∈ t.trimEnd.getLast?, isSpace c = false at last
  change _ = t.trimStart.trimEnd
  conv_rhs => rw [← whole, trimStart_append]
  split
  · rename_i blank
    rw [List.isEmpty_iff.mp blank, trimStart, List.dropWhile_eq_nil_iff.mpr spaces]
    rfl
  · rename_i some
    change _ = (t.trimEnd.trimStart ++ tail).dropEndWhile isSpace
    rw [dropEndWhile_append_of_all spaces]
    refine (dropEndWhile_eq_self fun c member => last c ?_).symm
    obtain ⟨indent, parts⟩ : t.trimEnd.trimStart <:+ t.trimEnd := List.dropWhile_suffix isSpace
    rw [← parts, List.getLast?_append_of_ne_nil indent (mt List.isEmpty_iff.mpr some)]
    exact member

theorem trim_trimEnd (t : Text) : t.trimEnd.trim = t.trim := by
  change t.trimEnd.trimStart.trimEnd = t.trim
  rw [trimStart_trimEnd]
  exact List.rdropWhile_idempotent isSpace t.trimStart

end MarkdownTidy.Text
