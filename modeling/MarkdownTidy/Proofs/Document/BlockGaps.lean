import Mathlib.Algebra.Ring.Nat
import MarkdownTidy.Document.Settling
import MarkdownTidy.Proofs.Document.BlockShapes
import MarkdownTidy.Proofs.Document.GapRule

namespace MarkdownTidy

/-- The blank line that a rule puts in, with its count. -/
def blankFor : Option Rule → Counted (List Line)
  | some r => ⟨[[]], .single r 1⟩
  | none => pure []

namespace Settings

/-- The rule that wants a blank line between a line and the block that the next line starts. -/
def aboveRule? (s : Settings) (before first : Line) : Option Rule :=
  if first.isFenceMarker then
    if !before.isBlank && s.isEnabled .fenceSpacing then some .fenceSpacing else none
  else if s.isEnabled .listSpacing && first.isListItem && !before.isBlank && !before.isListItem then
    some .listSpacing
  else none

/-- The rule that wants a blank line between a block and the line after it. -/
def belowRule? (s : Settings) (b : Block) (after : Line) : Option Rule :=
  if b.partsFromAfter after then b.spacingRule?.filter s.isEnabled else none

end Settings

variable {s : Settings} {around : Surroundings} {l next z : Line} {others tail : List Line} {b : Block}

theorem gap_eq_blankFor (s : Settings) (b : Block) (wanted : Bool) :
    s.gap b wanted = blankFor (if wanted then b.spacingRule?.filter s.isEnabled else none) := by
  cases b <;> cases wanted <;> simp [Settings.gap, Block.spacingRule?, blankFor, Option.filter] <;>
    split <;> rfl

theorem gapLocalRule_eq_blankFor (s : Settings) (around : Surroundings) (following : Option Line)
    (l : Line) :
    s.gapLocalRule around following l =
      ⟨l :: (blankFor (following.bind (s.gapRule? around.inFence l))).value,
        (blankFor (following.bind (s.gapRule? around.inFence l))).counts⟩ := by
  rw [Settings.gapLocalRule]
  cases following.bind (s.gapRule? around.inFence l) <;> rfl

theorem blankFor_get_eq_zero_iff {wanted : Option Rule} {r : Rule} :
    (blankFor wanted).counts.get r = 0 ↔ wanted ≠ some r := by
  cases wanted with
  | none => exact ⟨fun _ => nofun, fun _ => Counts.get_zero r⟩
  | some q =>
    rw [blankFor, Counts.get_single, Ne, Option.some.injEq, eq_comm (a := q)]
    split <;> simp [*]

/-- Gaps are counted for the rules that want them. -/
theorem gap_run_get_eq_zero_iff {r : Rule} {d : List Line} :
    (s.gapLocalRule.run around d).counts.get r = 0 ↔
      EveryLine (fun around following l => following.bind (s.gapRule? around.inFence l) ≠ some r) around d := by
  rw [LocalRule.run_get_eq_zero_iff]
  simp only [gapLocalRule_eq_blankFor, blankFor_get_eq_zero_iff]

theorem mem_gap_run {m : Line} {d : List Line} (member : m ∈ (s.gapLocalRule.run around d).value) :
    m ∈ d ∨ m = [] := by
  induction d generalizing around with
  | nil => exact Or.inl member
  | cons l rest ih =>
    rw [LocalRule.run_cons, gapLocalRule_eq_blankFor, List.cons_append] at member
    rcases List.mem_cons.mp member with rfl | later
    · exact Or.inl List.mem_cons_self
    · rcases List.mem_append.mp later with gap | other
      · cases wanted : rest.head?.bind (s.gapRule? around.inFence l) with
        | none => simp [wanted, blankFor] at gap
        | some r => exact Or.inr (by simpa [wanted, blankFor] using gap)
      · exact (ih other).imp_left (List.mem_cons_of_mem l)

theorem flatten_gap_run (s : Settings) (around : Surroundings) (d : List Line) :
    (s.gapLocalRule.run around d).value.flatten = d.flatten := by
  induction d generalizing around with
  | nil => rfl
  | cons l rest ih =>
    have blank : (blankFor (rest.head?.bind (s.gapRule? around.inFence l))).value.flatten = [] := by
      cases rest.head?.bind (s.gapRule? around.inFence l) <;> rfl
    rw [LocalRule.run_cons, gapLocalRule_eq_blankFor, List.cons_append, List.flatten_cons,
      List.flatten_append, blank, ih]
    rfl

/-- If empty lines have no weight, the blank lines that go in add nothing to the weight of the others. -/
theorem sum_map_gap_run (w : Line → Nat) (weightless : w [] = 0) (s : Settings) (around : Surroundings)
    (d : List Line) : ((s.gapLocalRule.run around d).value.map w).sum = (d.map w).sum := by
  induction d generalizing around with
  | nil => rfl
  | cons l rest ih =>
    have blank : ((blankFor (rest.head?.bind (s.gapRule? around.inFence l))).value.map w).sum = 0 := by
      cases rest.head?.bind (s.gapRule? around.inFence l) with
      | none => rfl
      | some r => exact (List.sum_singleton).trans weightless
    rw [LocalRule.run_cons, gapLocalRule_eq_blankFor, List.cons_append, List.map_cons, List.map_append,
      List.sum_cons, List.sum_append, blank, ih, Nat.zero_add, List.map_cons, List.sum_cons]

theorem aboveRule?_blank (blank : l.isBlank = true) (next : Line) : s.aboveRule? l next = none := by
  simp [Settings.aboveRule?, blank]

theorem gapRule?_plain (noMarker : z.isFenceMarker = false)
    (noItem : s.isEnabled .listSpacing = true → z.isListItem = false) (next : Line) :
    s.gapRule? false z next = s.aboveRule? z next := by
  have markers := @Line.kind_of_isFenceMarker next
  have items := @Line.kind_of_isListItem next
  simp only [Line.kind, Line.Kind.mk.injEq] at markers items
  unfold Settings.gapRule? Settings.aboveRule?
  grind

theorem gapRule?_fenced (marker : z.isFenceMarker = true) (next : Line) :
    s.gapRule? true z next = (s.belowRule? (.fenced l others) next).or (s.aboveRule? z next) := by
  have markers := @Line.kind_of_isFenceMarker next
  have items := @Line.kind_of_isListItem next
  have visible := Line.kind_of_isFenceMarker marker
  simp only [Line.kind, Line.Kind.mk.injEq] at markers items visible
  unfold Settings.gapRule? Settings.aboveRule? Settings.belowRule?
  simp only [Block.partsFromAfter, Block.spacingRule?, Option.filter]
  grind

theorem gapRule?_list (on : s.isEnabled .listSpacing = true) (item : z.isListItem = true)
    (noItem : next.isListItem = false) :
    s.gapRule? false z next = (s.belowRule? (.list l others) next).or (s.aboveRule? z next) := by
  have markers := @Line.kind_of_isFenceMarker next
  have headings := @Line.isHeadingOrBreak_of_isFenceMarker next
  have visible := Line.kind_of_isListItem item
  simp only [Line.kind, Line.Kind.mk.injEq] at markers visible
  unfold Settings.gapRule? Settings.aboveRule? Settings.belowRule?
  simp only [Block.partsFromAfter, Block.spacingRule?, Option.filter]
  grind

theorem run_append_of_spaced {front tail : List Line} (spaced : s.Spaced around (front ++ [z])) :
    s.gapLocalRule.run around (front ++ z :: tail) =
      ⟨front ++ (s.gapLocalRule.run (front.foldl .past around) (z :: tail)).value,
        (s.gapLocalRule.run (front.foldl .past around) (z :: tail)).counts⟩ := by
  induction front generalizing around with
  | nil => rfl
  | cons l rest ih =>
    obtain ⟨here, later⟩ := spaced
    have same : (rest ++ z :: tail).head? = (rest ++ [z]).head? := by cases rest <;> rfl
    rw [List.cons_append, LocalRule.run_cons, ih later, gapLocalRule_eq_blankFor, same]
    change (rest ++ [z]).head?.bind (s.gapRule? around.inFence l) = none at here
    rw [here]
    exact Counted.ext_parts rfl (Counts.zero_add _)

namespace Settings

/-- The rule that wants a blank line between a line, if there is one, and lines right below it. -/
def gapAbove? (s : Settings) (before : Option Line) (ls : List Line) : Option Rule :=
  before.bind fun z => ls.head?.bind (s.aboveRule? z)

/-- Lines in which the wanted gaps are made, the one above them too. -/
def spaceBelow (s : Settings) (before : Option Line) (around : Surroundings) (ls : List Line) :
    Counted (List Line) :=
  let above := blankFor (s.gapAbove? before ls)
  let spaced := s.gapLocalRule.run around ls
  ⟨above.value ++ spaced.value, above.counts + spaced.counts⟩

end Settings

/-- What joins a block to the lines around it. -/
structure Joined (s : Settings) (around : Surroundings) (b : Block) (tail : List Line) : Prop where
  above : ∀ before : Line, (if b.partsFromBefore before then b.spacingRule?.filter s.isEnabled else none) =
    s.aboveRule? before b.firstLine
  spaced : s.Spaced around b.lines
  below : ∀ front z next, b.lines = front ++ [z] → tail.head? = some next →
    s.gapRule? (front.foldl .past around).inFence z next =
      (s.belowRule? b next).or (s.aboveRule? z next)
  outside : tail ≠ [] → (b.lines.foldl .past around).inFence = false

/-- A gap below a block makes a gap above the next one unwanted. -/
theorem blankFor_seam (s : Settings) (b : Block) (z : Line) (tail front : List Line) :
    let below := blankFor (tail.head?.bind (s.belowRule? b))
    let above := blankFor (s.gapAbove? (front ++ [z] ++ below.value).getLast? tail)
    let both := blankFor (tail.head?.bind fun next => (s.belowRule? b next).or (s.aboveRule? z next))
    below.value ++ above.value = both.value ∧ below.counts + above.counts = both.counts := by
  cases first : tail.head? with
  | none => simp [blankFor, Settings.gapAbove?, first]
  | some next =>
    cases below : s.belowRule? b next with
    | none => simp [blankFor, Settings.gapAbove?, first, below]
    | some r =>
      have unwanted := aboveRule?_blank (s := s) (l := []) rfl next
      simp [blankFor, Settings.gapAbove?, first, below, unwanted]

theorem Joined.gap_above (joined : Joined s around b tail) (before : Option Line) :
    s.gap b (before.any b.partsFromBefore) = blankFor (s.gapAbove? before (b.lines ++ tail)) := by
  have first : (b.lines ++ tail).head? = some b.firstLine := by cases b <;> rfl
  rw [gap_eq_blankFor, Settings.gapAbove?, first]
  cases before with
  | none => rfl
  | some y => exact congrArg blankFor (joined.above y)

theorem gap_below (s : Settings) (b : Block) (following : Option Line) :
    s.gap b (following.any b.partsFromAfter) = blankFor (following.bind (s.belowRule? b)) := by
  rw [gap_eq_blankFor]
  cases following <;> rfl

/-- Inside a block no blank line goes in. -/
theorem Joined.run_eq {front : List Line} (joined : Joined s around b tail)
    (shape : b.lines = front ++ [z]) :
    let seam := blankFor (tail.head?.bind fun next => (s.belowRule? b next).or (s.aboveRule? z next))
    let others := s.gapLocalRule.run (b.lines.foldl .past around) tail
    s.gapLocalRule.run around (b.lines ++ tail) =
      ⟨b.lines ++ (seam.value ++ others.value), seam.counts + others.counts⟩ := by
  have wanted : tail.head?.bind (s.gapRule? (front.foldl .past around).inFence z) =
      tail.head?.bind fun next => (s.belowRule? b next).or (s.aboveRule? z next) := by
    cases first : tail.head? with
    | none => rfl
    | some next => exact joined.below front z next shape first
  have past : (front.foldl .past around).past z = b.lines.foldl .past around := by
    rw [shape, List.foldl_append]
    rfl
  have run : s.gapLocalRule.run around (front ++ z :: tail) = _ :=
    run_append_of_spaced (shape ▸ joined.spaced)
  rw [LocalRule.run_cons, gapLocalRule_eq_blankFor, wanted, past] at run
  have whole : b.lines ++ tail = front ++ z :: tail := by rw [shape, ← List.append_cons]
  rw [whole, run]
  refine Counted.ext_parts ?_ rfl
  simp only [shape, List.append_assoc, List.cons_append, List.nil_append]

theorem Joined.layOut {lists : Bool} (joined : Joined s around b tail)
    (later : ∀ before, s.layOut before (Block.ofLines lists tail) =
      s.spaceBelow before (b.lines.foldl .past around) tail) (before : Option Line) :
    s.layOut before (b :: Block.ofLines lists tail) = s.spaceBelow before around (b.lines ++ tail) := by
  obtain ⟨front, z, shape⟩ : ∃ front z, b.lines = front ++ [z] := by
    have some : b.lines ≠ [] := by cases b <;> simp [Block.lines]
    exact ⟨_, _, (List.dropLast_append_getLast some).symm⟩
  obtain ⟨seamValue, seamCounts⟩ := blankFor_seam s b z tail
    ((blankFor (s.gapAbove? before (b.lines ++ tail))).value ++ front)
  rw [List.append_assoc _ front, ← shape] at seamValue seamCounts
  rw [Settings.layOut, head?_ofLines, joined.gap_above, gap_below]
  refine Counted.ext_parts ?_ ?_
  · simp only [Counted.bind_value, Counted.pure_value, later, Settings.spaceBelow, joined.run_eq shape,
      ← seamValue, List.append_assoc]
  · simp only [Counted.bind_counts, Counted.pure_counts, later, Settings.spaceBelow, joined.run_eq shape,
      ← seamCounts, Counts.add_assoc, Counts.add_zero]

/-! The three kinds of blocks, outside fences. -/

theorem inFence_foldl_past (noMarkers : ∀ l ∈ tail, l.isFenceMarker = false) :
    (tail.foldl .past around).inFence = around.inFence := by
  induction tail generalizing around with
  | nil => rfl
  | cons l rest ih =>
    obtain ⟨here, others⟩ := List.forall_mem_cons.mp noMarkers
    rw [List.foldl_cons, ih others, Surroundings.past, here, Bool.bne_false]

theorem spaced_inFence {inside closing : List Line} (inFence : around.inFence = true)
    (noMarkers : ∀ l ∈ inside, l.isFenceMarker = false) (one : closing.length ≤ 1) :
    s.Spaced around (inside ++ closing) := by
  induction inside generalizing around with
  | nil =>
    match closing with
    | [] => trivial
    | [_] => exact ⟨rfl, trivial⟩
  | cons l rest ih =>
    obtain ⟨here, others⟩ := List.forall_mem_cons.mp noMarkers
    refine spaced_cons.mpr ⟨?_, ih ?_ others⟩
    · rw [inFence]
      cases (rest ++ closing).head? <;> simp [Settings.gapRule?, here]
    · rw [Surroundings.past, inFence, here]
      rfl

theorem spaced_items (outside : around.inFence = false)
    (items : ∀ l ∈ tail, l.isListItem = true ∨ l.isBlank = true) : s.Spaced around tail := by
  induction tail generalizing around with
  | nil => trivial
  | cons l rest ih =>
    obtain ⟨here, others⟩ := List.forall_mem_cons.mp items
    have noMarker := Line.isFenceMarker_of_item_or_blank here
    refine spaced_cons.mpr ⟨?_, ih ?_ others⟩
    · cases first : rest.head? with
      | none => rfl
      | some next =>
        have here' := others next (List.mem_of_mem_head? first)
        have noMarker' := Line.isFenceMarker_of_item_or_blank here'
        rw [Option.bind_some, gapRule?_eq_none_iff]
        intro _ visible visible'
        have item := here.resolve_right (by simp [visible])
        have item' := here'.resolve_right (by simp [visible'])
        exact ⟨fun _ => ⟨noMarker, noMarker'⟩, fun _ => ⟨fun _ => Or.inl item', fun _ => item⟩⟩
    · rw [Surroundings.past, outside, noMarker]
      rfl

theorem joined_plain (outside : around.inFence = false) (noMarker : l.isFenceMarker = false)
    (noItem : (s.isEnabled .listSpacing && l.isListItem) = false) (tail : List Line) :
    Joined s around (.plain l) tail where
  above before := by simp [Block.partsFromBefore, Block.firstLine, Settings.aboveRule?, noMarker, noItem]
  spaced := ⟨rfl, trivial⟩
  below front z next shape _ := by
    obtain ⟨rfl, rfl⟩ : front = [] ∧ z = l := by
      cases front with
      | nil => exact ⟨rfl, (List.cons.inj shape).1.symm⟩
      | cons => simp [Block.lines] at shape
    have plain := gapRule?_plain noMarker (fun on => by rwa [on, Bool.true_and] at noItem) next
    rw [List.foldl_nil, outside, plain]
    rfl
  outside _ := by
    change (around.inFence != l.isFenceMarker) = false
    rw [outside, noMarker]
    rfl

theorem joined_list (outside : around.inFence = false) (on : s.isEnabled .listSpacing = true)
    (item : l.isListItem = true) (rest : List Line) :
    Joined s around (.list l (Block.splitList rest).1) (Block.splitList rest).2 := by
  have items : ∀ m ∈ l :: (Block.splitList rest).1, m.isListItem = true ∨ m.isBlank = true := by
    intro m member
    rcases List.mem_cons.mp member with rfl | later
    · exact Or.inl item
    · exact of_mem_splitList later
  have noMarkers m (member : m ∈ l :: (Block.splitList rest).1) :=
    Line.isFenceMarker_of_item_or_blank (items m member)
  refine ⟨?_, spaced_items outside items, ?_, ?_⟩
  · intro before
    have noMarker := noMarkers l List.mem_cons_self
    simp [Block.partsFromBefore, Block.firstLine, Block.spacingRule?, Settings.aboveRule?, noMarker, on,
      item, Option.filter]
  · intro front z next shape follows
    have last : z.isListItem = true := by
      refine isListItem_last_of_list item rest z ?_
      rw [show l :: (Block.splitList rest).1 = front ++ [z] from shape, List.getLast?_concat]
      rfl
    have noItem := isListItem_after_splitList rest next follows
    have noMarkersFront : ∀ m ∈ front, m.isFenceMarker = false := by
      intro m member
      have within := List.mem_append_left [z] member
      rw [← shape] at within
      exact noMarkers m within
    rw [inFence_foldl_past noMarkersFront, outside, gapRule?_list on last noItem]
  · intro _
    exact (inFence_foldl_past noMarkers).trans outside

theorem joined_fenced (outside : around.inFence = false) (marker : l.isFenceMarker = true)
    (rest : List Line) :
    Joined s around (.fenced l (Block.splitFenced rest).1) (Block.splitFenced rest).2 := by
  obtain ⟨inside, closing, whole, noMarkers, one, closed⟩ := splitFenced_parts rest
  have opened : (around.past l).inFence = true := by
    rw [Surroundings.past, outside, marker]
    rfl
  refine ⟨?_, ?_, ?_, ?_⟩
  · intro before
    simp only [Block.partsFromBefore, Block.firstLine, Block.spacingRule?, Settings.aboveRule?, marker,
      Option.filter]
    grind
  · rw [Block.lines, whole]
    refine spaced_cons.mpr ⟨?_, spaced_inFence opened noMarkers one⟩
    rw [outside]
    cases (inside ++ closing).head? <;> simp [Settings.gapRule?, marker]
  · intro front z next shape follows
    obtain ⟨close, rfl, closeMarker⟩ := closed (by rintro none; simp [none] at follows)
    rw [Block.lines, whole, ← List.cons_append] at shape
    obtain ⟨rfl, same⟩ := List.append_inj' shape rfl
    obtain rfl := List.singleton_inj.mp same
    rw [List.foldl_cons, inFence_foldl_past noMarkers, opened, gapRule?_fenced closeMarker]
  · intro more
    obtain ⟨close, rfl, closeMarker⟩ := closed more
    rw [Block.lines, whole, List.foldl_cons, List.foldl_append, List.foldl_cons, List.foldl_nil,
      Surroundings.past, inFence_foldl_past noMarkers, opened, closeMarker]
    rfl

theorem layOut_ofLines (before : Option Line) (around : Surroundings) (ls : List Line)
    (outside : ls ≠ [] → around.inFence = false) :
    s.layOut before (Block.ofLines (s.isEnabled .listSpacing) ls) = s.spaceBelow before around ls := by
  -- After a fence that is never closed all lines are inside, but then none are left to lay out.
  generalize lists : s.isEnabled .listSpacing = on
  fun_induction Block.ofLines on ls generalizing before around with
  | case1 => cases before <;> rfl
  | case2 l rest marker ih =>
    have joined := joined_fenced (s := s) (outside (List.cons_ne_nil l rest)) marker rest
    have whole := joined.layOut (fun before => ih before _ joined.outside) before
    rwa [Block.lines, List.cons_append, Block.splitFenced_append] at whole
  | case3 l rest _ item ih =>
    rw [Bool.and_eq_true] at item
    have joined := joined_list (s := s) (outside (List.cons_ne_nil l rest)) (lists.trans item.1) item.2 rest
    have whole := joined.layOut (fun before => ih before _ joined.outside) before
    rwa [Block.lines, List.cons_append, Block.splitList_append] at whole
  | case4 l rest noMarker noItem ih =>
    rw [Bool.not_eq_true] at noMarker noItem
    have joined := joined_plain (outside (List.cons_ne_nil l rest)) noMarker (lists.symm ▸ noItem) rest
    exact joined.layOut (fun before => ih before _ joined.outside) before

/-- Laying out blocks puts in the blank lines that single lines and their successors want. -/
theorem spaceOut_eq_run (s : Settings) (d : Document) : s.spaceOut d = s.gapLocalRule.run {} d := by
  rw [Settings.spaceOut, layOut_ofLines none {} d fun _ => rfl]
  exact Counted.ext_parts rfl (Counts.zero_add _)

/-! A round is two passes over the lines. -/

theorem round_value (s : Settings) (d : Document) :
    (s.round d).value = (s.gapLocalRule.run {} (s.editLines d).value).value := by
  rw [Settings.round, Counted.bind_value, spaceOut_eq_run]

theorem round_counts (s : Settings) (d : Document) :
    (s.round d).counts =
      (s.editLines d).counts + (s.gapLocalRule.run {} (s.editLines d).value).counts := by
  rw [Settings.round, Counted.bind_counts, spaceOut_eq_run]

theorem round_of_rest {d : Document} (rest : s.editLines d = pure d) :
    s.round d = s.gapLocalRule.run {} d := by
  rw [Settings.round, rest, pure_bind, spaceOut_eq_run]

end MarkdownTidy
