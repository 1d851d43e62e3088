import MarkdownTidy.Document.BlankLines
import MarkdownTidy.Proofs.Document.LocalPass
import MarkdownTidy.Proofs.Line.KeptKinds

namespace MarkdownTidy
namespace Settings

/-- The rule that wants a blank line between a line and the next one. Only the parity of the fence
markers before them is told. No gap is wanted next to a blank line, or inside a fenced block. -/
def gapRule? (s : Settings) (inFence : Bool) (l next : Line) : Option Rule :=
  if (inFence != l.isFenceMarker) || l.isBlank || next.isBlank then none
  else if s.isEnabled .fenceSpacing &&
      (l.isFenceMarker || next.isFenceMarker && !(s.isEnabled .listSpacing && l.isListItem)) then
    some .fenceSpacing
  else if s.isEnabled .listSpacing &&
      (l.isListItem && !next.isListItem && !next.isHeadingOrBreak ||
        next.isListItem && !l.isListItem) then
    some .listSpacing
  else none

/-- Puts a blank line below a line if a rule wants one there. -/
def gapLocalRule (s : Settings) : LocalRule := fun around following l =>
  match following.bind (s.gapRule? around.inFence l) with
  | some r => ⟨[l, []], .single r 1⟩
  | none => pure [l]

/-- No rule wants another blank line anywhere. -/
def Spaced (s : Settings) : Surroundings → List Line → Prop :=
  EveryLine fun around following l => following.bind (s.gapRule? around.inFence l) = none

end Settings

variable {s : Settings} {around : Surroundings} {l next : Line} {d : List Line}

theorem spaced_cons : s.Spaced around (l :: d) ↔
    d.head?.bind (s.gapRule? around.inFence l) = none ∧ s.Spaced (around.past l) d :=
  Iff.rfl

theorem gapRule?_blank_left (blank : l.isBlank = true) (inFence : Bool) (next : Line) :
    s.gapRule? inFence l next = none := by
  simp [Settings.gapRule?, blank]

theorem gapRule?_blank_right (inFence : Bool) (l : Line) (blank : next.isBlank = true) :
    s.gapRule? inFence l next = none := by
  simp [Settings.gapRule?, blank]

/-- No gap is wanted between two visible lines, one of which may end a block and the other start one,
when they are no fence markers, and when an item is followed by an item or by what a list may run
into, and follows an item. -/
theorem gapRule?_eq_none_iff {inFence : Bool} :
    s.gapRule? inFence l next = none ↔
      (inFence = l.isFenceMarker → l.isBlank = false → next.isBlank = false →
        (s.isEnabled .fenceSpacing = true → l.isFenceMarker = false ∧ next.isFenceMarker = false) ∧
        (s.isEnabled .listSpacing = true →
          (l.isListItem = true → next.isListItem = true ∨ next.isHeadingOrBreak = true) ∧
          (next.isListItem = true → l.isListItem = true))) := by
  have excluded := Line.isFenceMarker_excludes (l := next)
  unfold Settings.gapRule?
  grind

theorem gapRule?_standsFor {l' next' : Line} {inFence : Bool} (left : Line.StandsFor l' l)
    (right : Line.StandsFor next' next) (noGap : s.gapRule? inFence l next = none) :
    s.gapRule? inFence l' next' = none := by
  obtain ⟨kind, -⟩ := left
  obtain ⟨kind', heading'⟩ := right
  simp only [Line.kind, Line.Kind.mk.injEq] at kind kind'
  rw [gapRule?_eq_none_iff] at noGap ⊢
  rw [kind.1, kind.2.1, kind.2.2, kind'.1, kind'.2.1, kind'.2.2]
  intro same visible visible'
  obtain ⟨fences, lists⟩ := noGap same visible visible'
  refine ⟨fences, fun on => ⟨fun item => ?_, (lists on).2⟩⟩
  exact ((lists on).1 item).imp_right heading'

namespace Settings.Spaced

theorem congr_inFence {around' : Surroundings} (same : around'.inFence = around.inFence)
    (spaced : s.Spaced around d) : s.Spaced around' d := by
  induction d generalizing around around' with
  | nil => trivial
  | cons l rest ih =>
    obtain ⟨here, later⟩ := spaced_cons.mp spaced
    refine spaced_cons.mpr ⟨?_, ih ?_ later⟩
    · rw [same]
      exact here
    · rw [Surroundings.past, Surroundings.past, same]

theorem run_eq (spaced : s.Spaced around d) : s.gapLocalRule.run around d = pure d := by
  refine LocalRule.run_eq_pure (EveryLine.imp spaced ?_)
  intro around following l none
  rw [gapLocalRule, none]

theorem standsFor {d' : List Line} (stand : List.Forall₂ Line.StandsFor d' d)
    (spaced : s.Spaced around d) : s.Spaced around d' := by
  induction stand generalizing around with
  | nil => trivial
  | @cons l' l rest' rest first others ih =>
    obtain ⟨here, later⟩ := spaced
    refine ⟨?_, ?_⟩
    · cases others with
      | nil => rfl
      | cons second _ => exact gapRule?_standsFor first second here
    · have markers := congrArg Line.Kind.marker first.kind
      refine congr_inFence ?_ (ih later)
      change (around.inFence != l'.isFenceMarker) = (around.inFence != l.isFenceMarker)
      exact congrArg (around.inFence != ·) markers

end Settings.Spaced

theorem head?_gap_run (s : Settings) (around : Surroundings) (d : List Line) :
    (s.gapLocalRule.run around d).value.head? = d.head? := by
  cases d with
  | nil => rfl
  | cons l rest =>
    rw [LocalRule.run_cons, Settings.gapLocalRule]
    split <;> rfl

/-- Where the blank lines have gone in, no more are wanted. -/
theorem gap_run_spaced (s : Settings) (around : Surroundings) (d : List Line) :
    s.Spaced around (s.gapLocalRule.run around d).value := by
  induction d generalizing around with
  | nil => trivial
  | cons l rest ih =>
    have later := ih (around.past l)
    rw [LocalRule.run_cons, Settings.gapLocalRule]
    have first := head?_gap_run s (around.past l) rest
    split
    · refine ⟨gapRule?_blank_right _ l (by rfl), ?_, ?_⟩
      · change (s.gapLocalRule.run (around.past l) rest).value.head?.bind _ = none
        cases (s.gapLocalRule.run (around.past l) rest).value.head? with
        | none => rfl
        | some next => exact gapRule?_blank_left (by rfl) _ next
      · refine later.congr_inFence ?_
        change ((around.past l).inFence != false) = (around.past l).inFence
        cases (around.past l).inFence <;> rfl
    · rename_i none
      refine ⟨?_, later⟩
      rw [← first] at none
      exact none

end MarkdownTidy
