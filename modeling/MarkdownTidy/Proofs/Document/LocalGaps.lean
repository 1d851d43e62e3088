import MarkdownTidy.Proofs.Document.BlockGaps
import MarkdownTidy.Proofs.Document.Sites

namespace MarkdownTidy
namespace Settings

/-- The rule for fences wants a gap between neighbours. -/
def PartsFences (s : Settings) (p q : Site) : Prop :=
  s.isEnabled .fenceSpacing = true ∧ (p.ClosesBlock ∨ q.OpensBlock)

/-- The rule for lists wants a gap between neighbours. -/
def PartsLists (s : Settings) (p q : Site) : Prop :=
  s.isEnabled .listSpacing = true ∧
    (p.IsItem ∧ ¬q.IsItem ∧ q.line.isHeadingOrBreak = false ∨ q.IsItem ∧ ¬p.IsItem)

/-- There is to be a blank line between neighbours: none of them is blank, they are not in one block, and
a rule wants the gap. -/
def Parts (s : Settings) (p q : Site) : Prop :=
  p.line.isBlank = false ∧ q.line.isBlank = false ∧ ¬(p.block?.isSome = true ∧ p.block? = q.block?) ∧
    (s.PartsFences p q ∨ s.PartsLists p q)

/-- The rule for which a gap between neighbours is counted. A gap between a list and the fence below it is
the list's. -/
def partingRule (s : Settings) (p q : Site) : Rule :=
  if s.isEnabled .fenceSpacing = true ∧
      (p.ClosesBlock ∨ q.OpensBlock ∧ ¬(s.isEnabled .listSpacing = true ∧ p.IsItem)) then .fenceSpacing
  else .listSpacing

variable (s : Settings) (p q : Site)

instance : Decidable (s.PartsFences p q) := inferInstanceAs (Decidable (_ ∧ _))

instance : Decidable (s.PartsLists p q) := inferInstanceAs (Decidable (_ ∧ _))

instance : Decidable (s.Parts p q) := inferInstanceAs (Decidable (_ ∧ _))

/-- The rule that puts a blank line right below a place, if one does. -/
def gapBelow? : Option Rule :=
  p.next?.bind fun q => if s.Parts p q then some (s.partingRule p q) else none

end Settings

variable {s : Settings} {p q : Site}

namespace Site

/-- Neighbours are in one block unless the upper one closes a block or is in none. -/
theorem sameBlock_iff (next : p.next? = some q) :
    p.block?.isSome = true ∧ p.block? = q.block? ↔
      (decide (Odd p.markersAbove) != p.line.isFenceMarker) = true := by
  have count := markersAbove_next next
  by_cases inside : Odd p.markersAbove
  · cases marker : p.line.isFenceMarker with
    | true =>
      have outside : ¬Odd q.markersAbove := by
        rw [count, marker]
        exact Nat.not_odd_iff_even.mpr inside.add_one
      have later : p.markersAbove ≠ q.markersAbove + 1 := by omega
      cases q.line.isFenceMarker <;> simp [block?, inside, outside, later]
    | false => simp [block?, inside, count, marker]
  · cases marker : p.line.isFenceMarker with
    | true =>
      have inside' : Odd (p.markersAbove + 1) := (Nat.not_odd_iff_even.mp inside).add_one
      simp [block?, inside, inside', count, marker]
    | false => simp [block?, inside, marker]

theorem isItem_of_not_odd (outside : ¬Odd p.markersAbove) (item : p.line.isListItem = true) : p.IsItem := by
  have noMarker := Line.isFenceMarker_of_item_or_blank (Or.inl item)
  exact ⟨item, by simp [block?, outside, noMarker]⟩

/-! At the border of a block it is the lines that tell what they are. -/

section Border
variable (border : decide (Odd p.markersAbove) = p.line.isFenceMarker)
include border

theorem closesBlock_iff : p.ClosesBlock ↔ p.line.isFenceMarker = true := by
  rw [ClosesBlock, ← border, decide_eq_true_iff, and_self]

theorem isItem_iff : p.IsItem ↔ p.line.isListItem = true := by
  refine ⟨And.left, fun item => isItem_of_not_odd ?_ item⟩
  have noMarker := Line.isFenceMarker_of_item_or_blank (Or.inl item)
  exact of_decide_eq_false (border.trans noMarker)

theorem even_markersAbove_next (next : p.next? = some q) : Even q.markersAbove := by
  rw [markersAbove_next next]
  cases marker : p.line.isFenceMarker with
  | true => exact (of_decide_eq_true (border.trans marker)).add_one
  | false => exact Nat.not_odd_iff_even.mp (of_decide_eq_false (border.trans marker))

theorem opensBlock_next_iff (next : p.next? = some q) : q.OpensBlock ↔ q.line.isFenceMarker = true :=
  and_iff_left (even_markersAbove_next border next)

theorem isItem_next_iff (next : p.next? = some q) : q.IsItem ↔ q.line.isListItem = true :=
  ⟨And.left, isItem_of_not_odd (Nat.not_odd_iff_even.mpr (even_markersAbove_next border next))⟩

end Border
end Site

/-- The rule for a gap, told by the lines and the parity of the fence markers above, is the one told by
the blocks. -/
theorem gapRule?_eq_parts (next : p.next? = some q) :
    s.gapRule? (decide (Odd p.markersAbove)) p.line q.line =
      if s.Parts p q then some (s.partingRule p q) else none := by
  by_cases border : decide (Odd p.markersAbove) = p.line.isFenceMarker
  · have markers := @Line.isFenceMarker_excludes q.line
    simp only [Settings.Parts, Settings.PartsFences, Settings.PartsLists, Settings.partingRule,
      Site.sameBlock_iff next, Site.closesBlock_iff border, Site.isItem_iff border,
      Site.opensBlock_next_iff border next, Site.isItem_next_iff border next, border, Settings.gapRule?]
    grind
  · have inside : (decide (Odd p.markersAbove) != p.line.isFenceMarker) = true := bne_iff_ne.mpr border
    rw [if_neg fun parts => parts.2.2.1 ((Site.sameBlock_iff next).mpr inside), Settings.gapRule?, inside]
    rfl

/-- A line, the one below it and the parity of the fence markers above tell the rule for their gap. -/
theorem gapRule?_below (s : Settings) (p : Site) :
    p.below.head?.bind (s.gapRule? (Surroundings.below p.above).inFence p.line) = s.gapBelow? p := by
  rw [below_inFence, Site.head?_below, Settings.gapBelow?]
  cases next : p.next? with
  | none => rfl
  | some q => exact gapRule?_eq_parts next

theorem gapLocalRule_at (s : Settings) (p : Site) :
    s.gapLocalRule.at p =
      ⟨p.line :: (blankFor (s.gapBelow? p)).value, (blankFor (s.gapBelow? p)).counts⟩ := by
  rw [LocalRule.at, gapLocalRule_eq_blankFor, gapRule?_below]

theorem gap_run_get_eq_countP (s : Settings) (above d : List Line) (r : Rule) :
    (s.gapLocalRule.run (.below above) d).counts.get r =
      (sitesBelow above d).countP fun p => s.gapBelow? p = some r := by
  induction d generalizing above with
  | nil => exact Counts.get_zero r
  | cons l rest ih =>
    have here : (s.gapLocalRule.at ⟨above, l, rest⟩).counts.get r =
        if s.gapBelow? ⟨above, l, rest⟩ = some r then 1 else 0 := by
      rw [gapLocalRule_at]
      cases wanted : s.gapBelow? ⟨above, l, rest⟩ with
      | none => exact Counts.get_zero r
      | some q => simp [blankFor, eq_comm]
    rw [LocalRule.run_below_cons, Counts.get_add, ih, here, Nat.add_comm, sitesBelow, List.countP_cons]
    simp only [decide_eq_true_eq]

/-- Spacing out a document is local. Every line stays, and a blank line goes in right below one that a rule
parts from its neighbour. The gap is counted for that rule. -/
theorem spacing_is_local (s : Settings) (d : Document) :
    (s.spaceOut d).value = d.sites.flatMap (fun p => p.line :: if (s.gapBelow? p).isSome then [[]] else []) ∧
      ∀ r, (s.spaceOut d).counts.get r = d.sites.countP fun p => s.gapBelow? p = some r := by
  rw [spaceOut_eq_run]
  refine ⟨?_, gap_run_get_eq_countP s [] d⟩
  refine (s.gapLocalRule.run_value_eq_flatMap [] d).trans ?_
  refine congrArg d.sites.flatMap (funext fun p => ?_)
  rw [gapLocalRule_at]
  cases s.gapBelow? p <;> rfl

/-- A fence right below a list is kept apart by the rule for lists, and below other lines by its own. -/
example :
    Settings.spaceOut {} ["- a".toList, fence, fence, "b".toList] =
      ⟨["- a".toList, [], fence, fence, [], "b".toList],
        .single .listSpacing 1 + .single .fenceSpacing 1⟩ := by
  decide +kernel

/-! A document is left alone if no place in it wants a gap. -/

theorem spaced_iff_sites {above d : List Line} :
    s.Spaced (.below above) d ↔ ∀ p ∈ sitesBelow above d, s.gapBelow? p = none := by
  induction d generalizing above with
  | nil => exact ⟨fun _ => List.forall_mem_nil _, fun _ => trivial⟩
  | cons l rest ih =>
    have here := gapRule?_below s ⟨above, l, rest⟩
    rw [spaced_cons, ← below_concat, ih, sitesBelow, List.forall_mem_cons, ← here]

theorem spaced_spaceOut (s : Settings) (d : Document) : s.Spaced {} (s.spaceOut d).value := by
  rw [spaceOut_eq_run]
  exact gap_run_spaced s {} d

theorem Settings.Spaced.spaceOut_eq {d : Document} (spaced : s.Spaced {} d) : s.spaceOut d = pure d :=
  (spaceOut_eq_run s d).trans spaced.run_eq

/-- Spacing out a document once is enough. The blank lines that went in part nothing else from its neighbours,
so that no place wants another one, and a second pass changes nothing and counts nothing. -/
theorem spacing_is_idempotent (s : Settings) (d : Document) :
    let spaced := (s.spaceOut d).value
    s.spaceOut spaced = ⟨spaced, 0⟩ ∧ ∀ p ∈ spaced.sites, s.gapBelow? p = none := by
  have spaced := spaced_spaceOut s d
  exact ⟨spaced.spaceOut_eq, spaced_iff_sites.mp spaced⟩

end MarkdownTidy
