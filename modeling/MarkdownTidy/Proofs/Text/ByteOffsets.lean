import Mathlib.Data.String.Basic
import MarkdownTidy.Proofs.Text.Backtracking

namespace MarkdownTidy

open String (utf8Len)

namespace Text

/-- Cuts a text at an offset in bytes. Inside of a character the cut is made behind it, and beyond the end of
the text at its end. -/
def splitAtByte : Text → Nat → Text × Text
  | [], _ => ([], [])
  | c :: rest, 0 => ([], c :: rest)
  | c :: rest, offset + 1 =>
    let (front, back) := splitAtByte rest (offset + 1 - c.utf8Size)
    (c :: front, back)

/-- A byte offset at which the string of a text can be cut. -/
def IsValidOffset (t : Text) (offset : Nat) : Prop :=
  (String.Pos.Raw.mk offset).IsValid (String.ofList t)

/-- Whether a byte offset stands between two characters of a text, or at an end of it. -/
def isBoundary (t : Text) (offset : Nat) : Bool :=
  utf8Len (t.splitAtByte offset).1 == offset

/-- Why a text cannot be read at some byte offsets. -/
inductive BadOffset where
  /-- The part between these offsets is no part of the text. -/
  | slice (start stop : Nat)
  /-- A search starts beyond the end of the text. -/
  | search (start : Nat)
  deriving DecidableEq

/-- The part of a text between two byte offsets. They must be boundaries and in order. -/
def slice (t : Text) (start stop : Nat) : Except BadOffset Text :=
  if start ≤ stop ∧ t.isBoundary start = true ∧ t.isBoundary stop = true then
    .ok ((t.splitAtByte stop).1.splitAtByte start).2
  else .error (.slice start stop)

variable {t : Text} {offset : Nat}

theorem splitAtByte_cons_of_pos (positive : 0 < offset) (c : Char) (rest : Text) :
    splitAtByte (c :: rest) offset =
      (c :: (rest.splitAtByte (offset - c.utf8Size)).1, (rest.splitAtByte (offset - c.utf8Size)).2) := by
  obtain ⟨n, rfl⟩ := Nat.exists_eq_add_of_lt positive
  rw [Nat.zero_add]
  rfl

theorem splitAtByte_append (front back : Text) : (front ++ back).splitAtByte (utf8Len front) = (front, back) := by
  induction front with
  | nil => cases back <;> rfl
  | cons c front ih =>
    have positive : 0 < utf8Len (c :: front) := by
      have := c.utf8Size_pos
      rw [String.utf8Len_cons]
      omega
    rw [List.cons_append, splitAtByte_cons_of_pos positive, String.utf8Len_cons, Nat.add_sub_cancel, ih]

theorem append_splitAtByte (t : Text) (offset : Nat) :
    (t.splitAtByte offset).1 ++ (t.splitAtByte offset).2 = t := by
  fun_induction splitAtByte t offset with
  | case1 => rfl
  | case2 => rfl
  | case3 c rest offset front back cut ih =>
    rw [cut] at ih
    exact congrArg (c :: ·) ih

/-- A cut is not made before its offset. -/
theorem le_utf8Len_splitAtByte (within : offset ≤ utf8Len t) : offset ≤ utf8Len (t.splitAtByte offset).1 := by
  fun_induction splitAtByte t offset with
  | case1 => exact within
  | case2 => exact Nat.zero_le _
  | case3 c rest offset front back cut ih =>
    rw [cut] at ih
    rw [String.utf8Len_cons] at within ⊢
    have := ih (by omega)
    dsimp only at this
    omega

theorem isValidOffset_iff :
    t.IsValidOffset offset ↔ ∃ front back, t = front ++ back ∧ utf8Len front = offset := by
  rw [IsValidOffset, String.Pos.Raw.isValid_iff_exists_append]
  constructor
  · rintro ⟨front, back, whole, stop⟩
    refine ⟨front.toList, back.toList, ?_, ?_⟩
    · rw [← String.toList_append, ← whole, String.toList_ofList]
    · rw [String.utf8Len_toList]
      exact (congrArg String.Pos.Raw.byteIdx stop).symm
  · rintro ⟨front, back, rfl, rfl⟩
    exact ⟨String.ofList front, String.ofList back, String.ofList_append, (String.rawEndPos_ofList front).symm⟩

/-- The boundaries of a text are the offsets at which it can be cut. -/
theorem isBoundary_iff : t.isBoundary offset = true ↔ t.IsValidOffset offset := by
  rw [isBoundary, beq_iff_eq, isValidOffset_iff]
  constructor
  · intro reached
    exact ⟨_, _, (append_splitAtByte t offset).symm, reached⟩
  · rintro ⟨front, back, rfl, rfl⟩
    rw [splitAtByte_append]

theorem isValidOffset_append (front back : Text) : (front ++ back).IsValidOffset (utf8Len front) :=
  isValidOffset_iff.mpr ⟨front, back, rfl, rfl⟩

theorem utf8Len_lt_append (nonempty : t ≠ []) (front : Text) : utf8Len front < utf8Len (front ++ t) := by
  rw [String.utf8Len_append]
  exact Nat.lt_add_of_pos_right (Nat.pos_of_ne_zero (mt String.utf8Len_eq_zero.mp nonempty))

theorem slice_parts (front part back : Text) :
    (front ++ part ++ back).slice (utf8Len front) (utf8Len (front ++ part)) = .ok part := by
  have ordered : utf8Len front ≤ utf8Len (front ++ part) := by
    rw [String.utf8Len_append]
    exact Nat.le_add_right _ _
  have start := isBoundary_iff.mpr (isValidOffset_append front (part ++ back))
  have stop := isBoundary_iff.mpr (isValidOffset_append (front ++ part) back)
  rw [← List.append_assoc] at start
  rw [slice, if_pos ⟨ordered, start, stop⟩, splitAtByte_append, splitAtByte_append]

theorem slice_from_start (front back : Text) : (front ++ back).slice 0 (utf8Len front) = .ok front :=
  slice_parts [] front back

theorem slice_to_end (front back : Text) :
    (front ++ back).slice (utf8Len front) (utf8Len (front ++ back)) = .ok back := by
  have parts := slice_parts front back []
  rwa [List.append_nil] at parts

theorem bind_eq_ok {α β : Type} {x : Except BadOffset α} {next : α → Except BadOffset β} {b : β} :
    x >>= next = .ok b ↔ ∃ a, x = .ok a ∧ next a = .ok b := by
  cases x <;> simp [bind, Except.bind]

end Text

namespace Pattern

/-- The bytes that a match covers. -/
structure Match where
  start : Nat
  stop : Nat
  deriving DecidableEq

/-- The first match of a pattern in a text that stands right behind the character `before`: what is skipped
before it, and what it takes. -/
def first? (pattern : Pattern) (before : Option Char) : Text → Option (Text × Text)
  | [] => (pattern.take? before []).map ([], ·)
  | c :: rest =>
    match pattern.take? before (c :: rest) with
    | some u => some ([], u)
    | none => (pattern.first? (some c) rest).map fun (skipped, u) => (c :: skipped, u)

/-- The first match of a pattern that does not start before a byte offset. What stands before the offset can
still be seen. -/
def findAt (pattern : Pattern) (t : Text) (offset : Nat) : Except Text.BadOffset (Option Match) :=
  if utf8Len t < offset then .error (.search offset)
  else
    let (front, rest) := t.splitAtByte offset
    .ok ((pattern.first? front.getLast? rest).map fun (skipped, u) =>
      { start := utf8Len (front ++ skipped), stop := utf8Len (front ++ skipped ++ u) })

variable {pattern : Pattern} {before : Option Char} {t skipped u : Text} {offset : Nat} {w : Way} {m : Match}

theorem parts_of_mem_runs {p : Char → Bool} (way : w ∈ runs p t) : w.taken ++ w.left = t := by
  induction t generalizing w with
  | nil =>
    rw [runs, List.mem_singleton] at way
    rw [way]
    rfl
  | cons c rest ih =>
    rw [runs] at way
    split at way
    · rcases List.mem_append.mp way with more | stop
      · obtain ⟨v, member, rfl⟩ := List.mem_map.mp more
        exact congrArg (c :: ·) (ih member)
      · rw [List.mem_singleton.mp stop]
        rfl
    · rw [List.mem_singleton.mp way]
      rfl

/-- Whichever way a pattern is matched, what it takes and what it leaves are the text. -/
theorem parts_of_mem_ways (way : w ∈ pattern.ways before t) : w.taken ++ w.left = t := by
  induction pattern generalizing before t w with
  | text v =>
    rw [ways] at way
    split at way
    · rename_i start
      rw [List.mem_singleton.mp way]
      exact List.prefix_iff_eq_append.mp start
    · contradiction
  | one p =>
    cases t with
    | nil => contradiction
    | cons c rest =>
      rw [ways] at way
      split at way
      · rw [List.mem_singleton.mp way]
        rfl
      · contradiction
  | many p => exact parts_of_mem_runs way
  | maybe option ih =>
    rcases List.mem_append.mp way with taken | left
    · exact ih taken
    · rw [List.mem_singleton.mp left]
      rfl
  | seq first second ih₁ ih₂ =>
    obtain ⟨w₁, way₁, later⟩ := List.mem_flatMap.mp way
    obtain ⟨w₂, way₂, rfl⟩ := List.mem_map.mp later
    change w₁.taken ++ w₂.taken ++ w₂.left = t
    rw [List.append_assoc, ih₂ way₂, ih₁ way₁]
  | notAfter p =>
    rw [ways] at way
    split at way
    · contradiction
    · rw [List.mem_singleton.mp way]
      rfl
  | notBefore p =>
    rw [ways] at way
    split at way
    · contradiction
    · rw [List.mem_singleton.mp way]
      rfl

theorem take?_prefix (taken : pattern.take? before t = some u) : u <+: t := by
  obtain ⟨w, first, rfl⟩ := Option.map_eq_some_iff.mp taken
  exact ⟨w.left, parts_of_mem_ways (List.mem_of_head? first)⟩

theorem first?_eq_some (found : pattern.first? before t = some (skipped, u)) :
    ∃ rest, t = skipped ++ (u ++ rest) ∧ pattern.take? (skipped.getLast?.or before) (u ++ rest) = some u := by
  fun_induction first? pattern before t generalizing skipped with
  | case1 before =>
    obtain ⟨v, taken, same⟩ := Option.map_eq_some_iff.mp found
    cases same
    obtain ⟨rest, whole⟩ := take?_prefix taken
    refine ⟨rest, whole.symm, ?_⟩
    rw [whole]
    exact taken
  | case2 before c rest v taken =>
    cases found
    obtain ⟨back, whole⟩ := take?_prefix taken
    exact ⟨back, whole.symm, whole ▸ taken⟩
  | case3 before c rest missed ih =>
    obtain ⟨⟨others, v⟩, later, same⟩ := Option.map_eq_some_iff.mp found
    cases same
    obtain ⟨back, rfl, taken⟩ := ih later
    exact ⟨back, rfl, by rwa [Text.getLast?_cons_or]⟩

/-- A found match takes a part of the text, and does not start before the offset. -/
theorem findAt_eq_some (found : pattern.findAt t offset = .ok (some m)) :
    ∃ front u rest, t = front ++ (u ++ rest) ∧ m = ⟨utf8Len front, utf8Len (front ++ u)⟩ ∧
      offset ≤ utf8Len front ∧ pattern.take? front.getLast? (u ++ rest) = some u := by
  unfold findAt at found
  split at found
  · contradiction
  · rename_i within
    obtain ⟨⟨skipped, u⟩, first, rfl⟩ := Option.map_eq_some_iff.mp (Except.ok.inj found)
    obtain ⟨rest, behind, taken⟩ := first?_eq_some first
    have whole := t.append_splitAtByte offset
    have reached := Text.le_utf8Len_splitAtByte (Nat.not_lt.mp within)
    refine ⟨(t.splitAtByte offset).1 ++ skipped, u, rest, ?_, rfl, ?_, ?_⟩
    · rw [List.append_assoc, ← behind, whole]
    · rw [String.utf8Len_append]
      omega
    · rwa [List.getLast?_append]

theorem findAt_append (pattern : Pattern) (front rest : Text) :
    pattern.findAt (front ++ rest) (utf8Len front) =
      .ok ((pattern.first? front.getLast? rest).map fun (skipped, u) =>
        ⟨utf8Len (front ++ skipped), utf8Len (front ++ skipped ++ u)⟩) := by
  have within : ¬utf8Len (front ++ rest) < utf8Len front := by
    rw [String.utf8Len_append]
    omega
  rw [findAt, if_neg within, Text.splitAtByte_append]

end Pattern
end MarkdownTidy
