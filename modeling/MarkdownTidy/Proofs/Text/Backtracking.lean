import MarkdownTidy.Proofs.Text.Trimming

namespace MarkdownTidy

/-- A pattern that is searched for by backtracking. -/
inductive Pattern where
  /-- A given text. -/
  | text (u : Text)
  /-- One character of a class. -/
  | one (p : Char → Bool)
  /-- Any number of characters of a class. More of them are tried before less. -/
  | many (p : Char → Bool)
  /-- A pattern, or nothing. The pattern is tried first. -/
  | maybe (pattern : Pattern)
  /-- One pattern, and another one where the first ends. -/
  | seq (first second : Pattern)
  /-- Nothing, if no character of a class stands before it. -/
  | notAfter (p : Char → Bool)
  /-- Nothing, if no character of a class stands behind it. -/
  | notBefore (p : Char → Bool)

namespace Pattern

/-- A way to match a pattern: what is taken from the start of a text, and what is left of the text. -/
structure Way where
  taken : Text
  left : Text

/-- A way that goes on where another one ended, told from the start of that one. -/
def Way.behind (front : Text) (w : Way) : Way :=
  ⟨front ++ w.taken, w.left⟩

/-- The ways to take characters of a class. Each one gives up one character more. -/
@[simp] def runs (p : Char → Bool) : Text → List Way
  | [] => [⟨[], []⟩]
  | c :: rest => if p c then (runs p rest).map (.behind [c]) ++ [⟨[], c :: rest⟩] else [⟨[], c :: rest⟩]

/-- All ways to match a pattern at the start of a text, in the order in which they are tried. The text
stands right behind the character `before`. -/
@[simp] def ways (before : Option Char) : Pattern → Text → List Way
  | text u, t => if u <+: t then [⟨u, t.drop u.length⟩] else []
  | one _, [] => []
  | one p, c :: rest => if p c then [⟨[c], rest⟩] else []
  | many p, t => runs p t
  | maybe pattern, t => ways before pattern t ++ [⟨[], t⟩]
  | seq first second, t =>
    (ways before first t).flatMap fun w =>
      (ways (w.taken.getLast?.or before) second w.left).map (.behind w.taken)
  | notAfter p, t => if before.any p then [] else [⟨[], t⟩]
  | notBefore p, t => if t.head?.any p then [] else [⟨[], t⟩]

/-- What a pattern takes from the start of a text. The first way to match it counts. -/
def take? (pattern : Pattern) (before : Option Char) (t : Text) : Option Text :=
  (pattern.ways before t).head?.map Way.taken

/-- There is a place in the text where the pattern is matched. -/
def OccursIn (pattern : Pattern) (t : Text) : Prop :=
  ∃ front rest, t = front ++ rest ∧ (pattern.take? front.getLast? rest).isSome = true

/-- Replaces the matches of a pattern from left to right, and counts them. After a match the search goes on
at its end. A match that takes nothing is not replaced. -/
def replaceAll (pattern : Pattern) (replace : Text → Text) (before : Option Char) : Text → Text × Nat
  | [] => ([], 0)
  | c :: rest =>
    match pattern.take? before (c :: rest) with
    | some (first :: others) =>
      let later := pattern.replaceAll replace (first :: others).getLast? (rest.drop others.length)
      (replace (first :: others) ++ later.1, later.2 + 1)
    | _ =>
      let later := pattern.replaceAll replace (some c) rest
      (c :: later.1, later.2)
termination_by t => t.length
decreasing_by
  · simp only [List.length_drop, List.length_cons]
    omega
  · simp

variable {before : Option Char} {p q : Char → Bool} {t u v : Text} {c : Char} {rest : Text}
  {pattern : Pattern}

/-- Of two patterns in a row the first takes what leaves something for the second. -/
theorem take?_seq (first second : Pattern) (before : Option Char) (t : Text) :
    (seq first second).take? before t =
      (first.ways before t).findSome? fun w =>
        (second.take? (w.taken.getLast?.or before) w.left).map (w.taken ++ ·) := by
  rw [take?, ways, List.head?_flatMap, List.map_findSome?]
  refine congrArg (List.findSome? · _) (funext fun w => ?_)
  rw [Function.comp_apply, List.head?_map, Option.map_map, take?, Option.map_map]
  rfl

theorem take?_text_seq (u : Text) :
    (seq (text u) pattern).take? before t =
      if u <+: t then (pattern.take? (u.getLast?.or before) (t.drop u.length)).map (u ++ ·) else none := by
  rw [take?_seq, ways]
  split
  · exact List.findSome?_singleton
  · rfl

theorem take?_one_seq_cons :
    (seq (one p) pattern).take? before (c :: rest) =
      if p c then (pattern.take? (some c) rest).map (c :: ·) else none := by
  rw [take?_seq, ways]
  split
  · exact List.findSome?_singleton
  · rfl

theorem take?_maybe_seq (option : Pattern) :
    (seq (maybe option) pattern).take? before t =
      ((seq option pattern).take? before t).or (pattern.take? before t) := by
  rw [take?_seq, ways, List.findSome?_append, ← take?_seq, List.findSome?_singleton]
  exact congrArg _ (Option.map_id')

theorem take?_text_text_seq (u v : Text) (pattern : Pattern) :
    (seq (text u) (seq (text v) pattern)).take? before t = (seq (text (u ++ v)) pattern).take? before t := by
  rw [take?_text_seq, take?_text_seq, take?_text_seq]
  by_cases first : u <+: t
  · obtain ⟨rest, rfl⟩ := first
    rw [if_pos (List.prefix_append u rest), List.drop_left, List.getLast?_append, Option.or_assoc,
      List.length_append, ← List.drop_drop, List.drop_left]
    simp only [List.prefix_append_right_inj, List.append_assoc]
    split
    · rw [Option.map_map]
      rfl
    · rfl
  · have both : ¬u ++ v <+: t := fun start => first ((List.prefix_append u v).trans start)
    rw [if_neg first, if_neg both]

theorem take?_text_maybe_seq (u : Text) (option pattern : Pattern) :
    (seq (text u) (seq (maybe option) pattern)).take? before t =
      ((seq (text u) (seq option pattern)).take? before t).or ((seq (text u) pattern).take? before t) := by
  rw [take?_text_seq, take?_maybe_seq, take?_text_seq, take?_text_seq]
  split
  · exact Option.map_or
  · rfl

theorem take?_notAfter_seq :
    (seq (notAfter p) pattern).take? before t = if before.any p then none else pattern.take? before t := by
  rw [take?_seq, ways]
  split
  · rfl
  · rw [List.findSome?_singleton]
    exact Option.map_id'

theorem take?_notBefore : (notBefore p).take? before t = if t.head?.any p then none else some [] := by
  rw [take?, ways]
  split <;> rfl

theorem take?_many_seq_nil : (seq (many p) pattern).take? before [] = pattern.take? before [] := by
  rw [take?_seq, ways, runs, List.findSome?_singleton]
  exact Option.map_id'

/-- A run goes on as long as the pattern behind it is matched at a later place. -/
theorem take?_many_seq_cons :
    (seq (many p) pattern).take? before (c :: rest) =
      (if p c then ((seq (many p) pattern).take? (some c) rest).map (c :: ·) else none).or
        (pattern.take? before (c :: rest)) := by
  have here : (pattern.take? (([] : Text).getLast?.or before) (c :: rest)).map ([] ++ ·) =
      pattern.take? before (c :: rest) := Option.map_id'
  rw [take?_seq, ways, runs]
  split
  · rw [List.findSome?_append, List.findSome?_singleton, here, List.findSome?_map, take?_seq, ways,
      List.map_findSome?]
    refine congrArg (Option.or · _) (congrArg (List.findSome? · _) (funext fun w => ?_))
    simp only [Function.comp_apply, Way.behind, List.singleton_append, Text.getLast?_cons_or, Option.map_map]
    rfl
  · rw [List.findSome?_singleton, here, Option.none_or]

/-- The longest run is tried first. -/
theorem take?_many : (many p).take? before t = some (t.takeWhile p) := by
  rw [take?, ways]
  induction t with
  | nil => rfl
  | cons c rest ih =>
    rw [runs]
    split
    · rename_i inside
      obtain ⟨w, first, taken⟩ := Option.map_eq_some_iff.mp ih
      rw [List.head?_append, List.head?_map, first, List.takeWhile_cons_of_pos inside, ← taken]
      rfl
    · rename_i outside
      rw [List.takeWhile_cons_of_neg outside]
      rfl

theorem isSome_take?_text : ((text u).take? before t).isSome = true ↔ u <+: t := by
  rw [take?, ways]
  split
  · rename_i start
    exact iff_of_true rfl start
  · rename_i other
    exact iff_of_false nofun other

/-- Of all runs at the start of a text there is one behind which the other pattern is matched. -/
theorem isSome_take?_many_seq :
    ((seq (many p) pattern).take? before t).isSome = true ↔
      ∃ u v, u ++ v = t ∧ (∀ c ∈ u, p c = true) ∧ (pattern.take? (u.getLast?.or before) v).isSome = true := by
  induction t generalizing before with
  | nil => simp [take?_many_seq_nil, and_assoc]
  | cons c rest ih =>
    rw [take?_many_seq_cons, Option.isSome_or, Bool.or_eq_true]
    constructor
    · rintro (more | stop)
      · split at more
        · rename_i inside
          rw [Option.isSome_map] at more
          obtain ⟨u, v, whole, all, found⟩ := ih.mp more
          refine ⟨c :: u, v, by rw [List.cons_append, whole], List.forall_mem_cons.mpr ⟨inside, all⟩, ?_⟩
          rwa [Text.getLast?_cons_or]
        · contradiction
      · exact ⟨[], c :: rest, rfl, List.forall_mem_nil _, stop⟩
    · rintro ⟨u, v, whole, all, found⟩
      cases u with
      | nil => exact Or.inr (whole ▸ found)
      | cons d u =>
        obtain ⟨rfl, later⟩ := List.cons.inj whole
        obtain ⟨inside, others⟩ := List.forall_mem_cons.mp all
        rw [Text.getLast?_cons_or] at found
        rw [if_pos inside, Option.isSome_map]
        exact Or.inl (ih.mpr ⟨u, v, later, others, found⟩)

/-- A run that may not stop before a character of another class gives up its last one there. -/
theorem take?_many_seq_notBefore (disjoint : ∀ c, p c = true → q c = false) :
    (seq (many p) (notBefore q)).take? before t =
      if (t.dropWhile p).head?.any q then
        if t.takeWhile p = [] then none else some (t.takeWhile p).dropLast
      else some (t.takeWhile p) := by
  induction t generalizing before with
  | nil =>
    rw [take?_many_seq_nil, take?_notBefore]
    rfl
  | cons c rest ih =>
    rw [take?_many_seq_cons, take?_notBefore, List.head?_cons, Option.any_some]
    by_cases inside : p c = true
    · rw [if_pos inside, ih, disjoint c inside, List.takeWhile_cons_of_pos inside,
        List.dropWhile_cons_of_pos inside]
      cases rest.takeWhile p <;> cases outer : (rest.dropWhile p).head?.any q <;> simp
    · rw [if_neg inside, List.takeWhile_cons_of_neg inside, List.dropWhile_cons_of_neg inside]
      cases outer : q c <;> simp [outer]

end Pattern
end MarkdownTidy
