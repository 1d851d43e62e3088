import Mathlib.Algebra.Ring.Parity
import MarkdownTidy.Proofs.Document.InsertedLines

namespace MarkdownTidy

/-- The lines up to the first fence marker. -/
def untilFence (ls : List Line) : List Line :=
  ls.takeWhile fun l => !l.isFenceMarker

/-- A fence marker in its place: its number, counted from one, and the lines below it. -/
structure Fence where
  number : Nat
  marker : Line
  below : List Line
  isMarker : marker.isFenceMarker = true

namespace Fence

def following (f : Fence) : Option Line :=
  f.below.head?

/-- The lines between the marker and the next one, or to the end of the document. -/
def inside (f : Fence) : List Line :=
  untilFence f.below

/-- The fence markers among lines that are below `n` others. -/
def after (n : Nat) : List Line → List Fence
  | [] => []
  | l :: rest =>
    if marker : l.isFenceMarker then ⟨n + 1, l, rest, marker⟩ :: after (n + 1) rest else after n rest

/-- What becomes of a fence marker: `M` says how it is changed, and `R` how the lines of the block that it
opens are. -/
structure Becomes (M : Fence → Line → Prop) (R : Line → Line → Prop) (f f' : Fence) : Prop where
  number : f'.number = f.number
  follows : f'.following.isSome = f.following.isSome
  marker : M f f'.marker
  inside : Odd f.number → List.Forall₂ R f.inside f'.inside

end Fence

/-- The fence markers of a document, in their order. -/
def Document.fences (d : Document) : List Fence :=
  Fence.after 0 d

/-- Whether a line comes out when a fence marker is edited. Of the lines above it only the number of
markers is told. -/
def Settings.EditsFence (s : Settings) (f : Fence) (l : Line) : Prop :=
  ∃ around : Surroundings, around.inFence = decide (Even f.number) ∧
    l = (s.editLine around f.following f.marker).value

variable {s : Settings} {around : Surroundings} {l : Line} {n : Nat}

section List
variable (n : Nat) (rest : List Line)

theorem fenceAfter_cons_of_marker (marker : l.isFenceMarker = true) :
    Fence.after n (l :: rest) = ⟨n + 1, l, rest, marker⟩ :: Fence.after (n + 1) rest :=
  dif_pos marker

theorem fenceAfter_cons_of_not (noMarker : l.isFenceMarker = false) :
    Fence.after n (l :: rest) = Fence.after n rest :=
  dif_neg (by simp [noMarker])

theorem untilFence_cons_of_marker (marker : l.isFenceMarker = true) : untilFence (l :: rest) = [] :=
  List.takeWhile_cons_of_neg (by simp [marker])

theorem untilFence_cons_of_not (noMarker : l.isFenceMarker = false) :
    untilFence (l :: rest) = l :: untilFence rest :=
  List.takeWhile_cons_of_pos (by simp [noMarker])

end List

theorem inFence_past_of_marker (marker : l.isFenceMarker = true)
    (parity : around.inFence = decide (Odd n)) : (around.past l).inFence = decide (Odd (n + 1)) := by
  rw [Surroundings.past, marker, parity]
  simp [Nat.odd_add_one, -Nat.not_odd_iff_even]

theorem inFence_past_of_not (noMarker : l.isFenceMarker = false) :
    (around.past l).inFence = around.inFence := by
  rw [Surroundings.past, noMarker, Bool.bne_false]

/-! Edits take fence markers to fence markers, and make no others. -/

theorem editFrom_untilFence (positive : 1 ≤ s.headingLevel) (around : Surroundings) (d : List Line) :
    List.Forall₂ s.Keeps (untilFence d) (untilFence (s.editFrom around d).value) := by
  induction d generalizing around with
  | nil => exact .nil
  | cons l rest ih =>
    have same := isFenceMarker_editLine positive around rest.head? l
    rw [editFrom_cons]
    cases isMarker : l.isFenceMarker with
    | true =>
      rw [untilFence_cons_of_marker rest isMarker, untilFence_cons_of_marker _ (same.trans isMarker)]
      exact .nil
    | false =>
      rw [untilFence_cons_of_not rest isMarker, untilFence_cons_of_not _ (same.trans isMarker)]
      exact .cons (editLine_keeps s around rest.head? l) (ih _)

theorem editFrom_fences (positive : 1 ≤ s.headingLevel) (parity : around.inFence = decide (Odd n))
    (d : List Line) :
    List.Forall₂ (Fence.Becomes s.EditsFence s.Keeps) (Fence.after n d)
      (Fence.after n (s.editFrom around d).value) := by
  induction d generalizing n around with
  | nil => exact .nil
  | cons l rest ih =>
    have same := isFenceMarker_editLine positive around rest.head? l
    have past : around.past (s.editLine around rest.head? l).value = around.past l :=
      editLine_past positive around
    rw [editFrom_cons, past]
    cases isMarker : l.isFenceMarker with
    | false =>
      rw [fenceAfter_cons_of_not n rest isMarker, fenceAfter_cons_of_not n _ (same.trans isMarker)]
      exact ih ((inFence_past_of_not isMarker).trans parity)
    | true =>
      rw [fenceAfter_cons_of_marker n rest isMarker,
        fenceAfter_cons_of_marker n _ (same.trans isMarker)]
      refine .cons ⟨rfl, ?_, ⟨around, ?_, rfl⟩, ?_⟩ (ih (inFence_past_of_marker isMarker parity))
      · cases rest <;> rfl
      · rw [parity]
        simp [Nat.even_add_one]
      · exact fun _ => editFrom_untilFence positive _ rest

/-! Gaps leave all fence markers as they are. -/

/-- No gap is made in a fenced block. -/
theorem gap_run_untilFence (inFence : around.inFence = true) (d : List Line) :
    untilFence (s.gapLocalRule.run around d).value = untilFence d := by
  induction d generalizing around with
  | nil => rfl
  | cons l rest ih =>
    rw [LocalRule.run_cons, gapLocalRule_eq_blankFor, List.cons_append]
    cases isMarker : l.isFenceMarker with
    | true => rw [untilFence_cons_of_marker _ isMarker, untilFence_cons_of_marker rest isMarker]
    | false =>
      have noGap : rest.head?.bind (s.gapRule? around.inFence l) = none := by
        cases rest.head? <;> simp [Settings.gapRule?, inFence, isMarker]
      rw [untilFence_cons_of_not _ isMarker, untilFence_cons_of_not rest isMarker, noGap]
      exact congrArg (l :: ·) (ih ((inFence_past_of_not isMarker).trans inFence))

theorem fenceAfter_blankFor (n : Nat) (wanted : Option Rule) (d : List Line) :
    Fence.after n ((blankFor wanted).value ++ d) = Fence.after n d := by
  cases wanted <;> rfl

theorem isSome_following_gap_run (s : Settings) (around : Surroundings) (l : Line) (rest : List Line) :
    (s.gapLocalRule.run around (l :: rest)).value.tail.head?.isSome = rest.head?.isSome := by
  rw [LocalRule.run_cons, gapLocalRule_eq_blankFor, List.cons_append, List.tail_cons]
  cases rest with
  | nil => rfl
  | cons next others =>
    cases (List.head? (next :: others)).bind (s.gapRule? around.inFence l) with
    | none => exact congrArg Option.isSome (head?_gap_run s (around.past l) (next :: others))
    | some r => rfl

theorem gap_run_fences (s : Settings) (parity : around.inFence = decide (Odd n)) (d : List Line) :
    List.Forall₂ (Fence.Becomes (fun f l => l = f.marker) Eq) (Fence.after n d)
      (Fence.after n (s.gapLocalRule.run around d).value) := by
  induction d generalizing n around with
  | nil => exact .nil
  | cons l rest ih =>
    have follows := isSome_following_gap_run s around l rest
    rw [LocalRule.run_cons, gapLocalRule_eq_blankFor, List.cons_append] at follows ⊢
    cases isMarker : l.isFenceMarker with
    | false =>
      rw [fenceAfter_cons_of_not n rest isMarker, fenceAfter_cons_of_not n _ isMarker, fenceAfter_blankFor]
      exact ih ((inFence_past_of_not isMarker).trans parity)
    | true =>
      have parity' := inFence_past_of_marker isMarker parity
      rw [fenceAfter_cons_of_marker n rest isMarker, fenceAfter_cons_of_marker n _ isMarker,
        fenceAfter_blankFor]
      refine .cons ⟨rfl, follows, rfl, fun odd => ?_⟩ (ih parity')
      -- A marker of an odd number opens a block, so there is no gap right below it or further down.
      have outside : around.inFence = false := parity.trans (decide_eq_false (Nat.odd_add_one.mp odd))
      have noGap : rest.head?.bind (s.gapRule? around.inFence l) = none := by
        cases rest.head? <;> simp [Settings.gapRule?, outside, isMarker]
      rw [List.forall₂_eq_eq_eq, noGap]
      exact (gap_run_untilFence (parity'.trans (decide_eq_true odd)) rest).symm

/-! Both passes together. -/

theorem forall₂_trans {α : Type} {R S T : α → α → Prop} (compose : ∀ a b c, R a b → S b c → T a c)
    {as bs cs : List α} (first : List.Forall₂ R as bs) (second : List.Forall₂ S bs cs) :
    List.Forall₂ T as cs := by
  induction first generalizing cs with
  | nil =>
    cases second
    exact .nil
  | cons here _ ih =>
    cases second with
    | cons here' later => exact .cons (compose _ _ _ here here') (ih later)

theorem Fence.Becomes.trans {M M' N : Fence → Line → Prop} {R R' T : Line → Line → Prop}
    {f₁ f₂ f₃ : Fence} (first : f₁.Becomes M R f₂) (second : f₂.Becomes M' R' f₃)
    (marker : M f₁ f₂.marker → M' f₂ f₃.marker → N f₁ f₃.marker)
    (lines : ∀ l₁ l₂ l₃, R l₁ l₂ → R' l₂ l₃ → T l₁ l₃) : f₁.Becomes N T f₃ where
  number := second.number.trans first.number
  follows := second.follows.trans first.follows
  marker := marker first.marker second.marker
  inside odd := forall₂_trans lines (first.inside odd) (second.inside (first.number ▸ odd))

theorem round_fences (positive : 1 ≤ s.headingLevel) (d : Document) :
    List.Forall₂ (Fence.Becomes s.EditsFence s.Keeps) d.fences (s.round d).value.fences := by
  have parity : ({} : Surroundings).inFence = decide (Odd 0) := by simp
  have edits := editFrom_fences positive parity d
  have gaps := gap_run_fences s parity (s.editLines d).value
  rw [round_value]
  refine forall₂_trans (fun f₁ f₂ f₃ edit gap => edit.trans gap ?_ ?_) edits gaps
  · intro edited (same : f₃.marker = f₂.marker)
    rwa [same]
  · rintro l₁ l₂ _ keeps rfl
    exact keeps

end MarkdownTidy
