import MarkdownTidy.Proofs.Document.FenceParity
import MarkdownTidy.Proofs.Document.LocalPass

namespace MarkdownTidy

/-- A line in its place: the lines above it, in the order of the document, and the lines below. -/
structure Site where
  above : List Line
  line : Line
  below : List Line

namespace Site

/-- The place right below. -/
def next? (p : Site) : Option Site :=
  match p.below with
  | [] => none
  | l :: rest => some ⟨p.above ++ [p.line], l, rest⟩

def markersAbove (p : Site) : Nat :=
  fenceMarkers p.above

/-- The number of the fence marker that opens the block of the line, if the line is in one. A block runs
from a marker of an odd number to the next marker, and to the end if there is none. -/
def block? (p : Site) : Option Nat :=
  if Odd p.markersAbove then some p.markersAbove
  else if p.line.isFenceMarker then some (p.markersAbove + 1)
  else none

def OpensBlock (p : Site) : Prop :=
  p.line.isFenceMarker = true ∧ Even p.markersAbove

def ClosesBlock (p : Site) : Prop :=
  p.line.isFenceMarker = true ∧ Odd p.markersAbove

/-- In a block nothing is a list item. -/
def IsItem (p : Site) : Prop :=
  p.line.isListItem = true ∧ p.block? = none

instance : DecidablePred OpensBlock := fun _ => inferInstanceAs (Decidable (_ ∧ _))

instance : DecidablePred ClosesBlock := fun _ => inferInstanceAs (Decidable (_ ∧ _))

instance : DecidablePred IsItem := fun _ => inferInstanceAs (Decidable (_ ∧ _))

theorem head?_below (p : Site) : p.below.head? = p.next?.map line := by
  unfold next?
  cases p.below <;> rfl

theorem markersAbove_next {p q : Site} (next : p.next? = some q) :
    q.markersAbove = p.markersAbove + if p.line.isFenceMarker then 1 else 0 := by
  unfold next? at next
  cases below : p.below with
  | nil => simp [below] at next
  | cons l rest =>
    simp only [below, Option.some.injEq] at next
    rw [← next]
    exact fenceMarkers_concat p.above p.line

end Site

/-- The places of lines that stand below others. -/
def sitesBelow (above : List Line) : List Line → List Site
  | [] => []
  | l :: rest => ⟨above, l, rest⟩ :: sitesBelow (above ++ [l]) rest

/-- The places of all lines, from the first to the last. -/
def Document.sites (d : Document) : List Site :=
  sitesBelow [] d

theorem getElem?_sitesBelow (above d : List Line) (i : Nat) :
    (sitesBelow above d)[i]? = d[i]?.map fun l => ⟨above ++ d.take i, l, d.drop (i + 1)⟩ := by
  induction d generalizing above i with
  | nil => rfl
  | cons l rest ih =>
    cases i with
    | zero => simp [sitesBelow]
    | succ i => simp [sitesBelow, ih]

/-- What a pass makes of the line in its place. -/
def LocalRule.at (rule : LocalRule) (p : Site) : Counted (List Line) :=
  rule (.below p.above) p.below.head? p.line

namespace LocalRule
variable (rule : LocalRule) (above : List Line)

theorem run_below_cons (l : Line) (rest : List Line) :
    rule.run (.below above) (l :: rest) =
      ⟨(rule.at ⟨above, l, rest⟩).value ++ (rule.run (.below (above ++ [l])) rest).value,
        (rule.at ⟨above, l, rest⟩).counts + (rule.run (.below (above ++ [l])) rest).counts⟩ := by
  rw [run_cons, below_concat]
  rfl

/-- A pass puts together what it makes of the lines in their places. -/
theorem run_value_eq_flatMap (d : List Line) :
    (rule.run (.below above) d).value = (sitesBelow above d).flatMap fun p => (rule.at p).value := by
  induction d generalizing above with
  | nil => rfl
  | cons l rest ih => rw [run_below_cons, sitesBelow, List.flatMap_cons, ih]

theorem run_counts_eq_sum (d : List Line) :
    (rule.run (.below above) d).counts = Counts.sum ((sitesBelow above d).map fun p => (rule.at p).counts) := by
  induction d generalizing above with
  | nil => rfl
  | cons l rest ih =>
    rw [run_below_cons, ih]
    rfl

end LocalRule
end MarkdownTidy
