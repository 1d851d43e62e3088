import MarkdownTidy.Proofs.Document.InsertedLines
import MarkdownTidy.Proofs.Line.Becoming

namespace MarkdownTidy
variable {R : Line → Line → Prop} {P : Line → Prop} {l l' m : Line} {old mid new : Document}

/-- A placing in which the first line stays first, and lines of a class that were next to each other still
are. -/
structure CloselyPlaced (R : Line → Line → Prop) (P : Line → Prop) (old new : Document)
    (place : Fin old.length → Fin new.length) : Prop extends Placing R old new place where
  first : ∀ i, i.val = 0 → (place i).val = 0
  together : ∀ i j, j.val = i.val + 1 → P (old.get i) → P (old.get j) → (place j).val = (place i).val + 1

namespace CloselyPlaced

theorem of_forall₂ (lines : List.Forall₂ (fun l' l => R l l') new old) :
    CloselyPlaced R P old new (Fin.cast lines.length_eq.symm) where
  increasing _ _ less := less
  last _ final := final.trans lines.length_eq.symm
  changed i := lines.get (lines.length_eq.symm ▸ i.isLt) i.isLt
  others j unused := absurd ⟨Fin.cast lines.length_eq j, rfl⟩ unused
  first _ start := start
  together _ _ next _ _ := next

theorem line {place : Fin old.length → Fin new.length} (placed : CloselyPlaced R P old new place)
    (changed : R l l') (ends : old = [] → new = []) :
    CloselyPlaced R P (l :: old) (l' :: new) (Fin.cases 0 fun i => (place i).succ) where
  toPlacing := placed.toPlacing.line changed ends
  first i start := by
    cases i using Fin.cases with
    | zero => rfl
    | succ i => exact absurd start (Nat.succ_ne_zero _)
  together i j next here below := by
    cases j using Fin.cases with
    | zero => exact absurd next (Nat.succ_ne_zero _).symm
    | succ j =>
      cases i using Fin.cases with
      | zero => exact congrArg (· + 1) (placed.first j (Nat.succ.inj next))
      | succ i => exact congrArg (· + 1) (placed.together i j (Nat.succ.inj next) here below)

/-- An empty line may go in between two lines that are not both of the class. -/
theorem gap {place : Fin (m :: old).length → Fin new.length}
    (placed : CloselyPlaced R P (m :: old) new place) (changed : R l l') (apart : P l → ¬P m) :
    CloselyPlaced R P (l :: m :: old) (l' :: [] :: new) (Fin.cases 0 fun i => (place i).succ.succ) where
  toPlacing := placed.toPlacing.blank.line changed nofun
  first i start := by
    cases i using Fin.cases with
    | zero => rfl
    | succ i => exact absurd start (Nat.succ_ne_zero _)
  together i j next here below := by
    cases j using Fin.cases with
    | zero => exact absurd next (Nat.succ_ne_zero _).symm
    | succ j =>
      cases i using Fin.cases with
      | zero =>
        obtain rfl : j = 0 := Fin.ext (Nat.succ.inj next)
        exact absurd below (apart here)
      | succ i => exact congrArg (· + 2) (placed.together i j (Nat.succ.inj next) here below)

theorem trans {place : Fin old.length → Fin mid.length} {place' : Fin mid.length → Fin new.length}
    (compose : ∀ l₁ l₂ l₃, R l₁ l₂ → R l₂ l₃ → R l₁ l₃) (empty : ∀ l, R [] l → l = [])
    (kept : ∀ l l', R l l' → P l → P l') (before : CloselyPlaced R P old mid place)
    (after : CloselyPlaced R P mid new place') : CloselyPlaced R P old new (place' ∘ place) where
  increasing := after.increasing.comp before.increasing
  last i final := after.last _ (before.last i final)
  changed i := compose _ _ _ (before.changed i) (after.changed (place i))
  others j unused := by
    by_cases used : j ∈ Set.range place'
    · obtain ⟨k, rfl⟩ := used
      -- The line in this place was put in by the first placing, and the second one leaves it empty.
      have inserted : mid[k] = [] := by
        refine before.others k ?_
        rintro ⟨i, rfl⟩
        exact unused ⟨i, rfl⟩
      exact empty _ (inserted ▸ after.changed k)
    · exact after.others j used
  first i start := after.first _ (before.first i start)
  together i j next here below := by
    have here' := kept _ _ (before.changed i) here
    have below' := kept _ _ (before.changed j) below
    exact after.together _ _ (before.together i j next here below) here' below'

end CloselyPlaced

variable {s : Settings}

/-- List items are not kept apart from each other. -/
theorem gapRule?_items (inFence : Bool) (item : l.isListItem = true) (item' : m.isListItem = true) :
    s.gapRule? inFence l m = none := by
  rw [gapRule?_eq_none_iff]
  intro _ _ _
  have noMarker := Line.isFenceMarker_of_item_or_blank (Or.inl item)
  have noMarker' := Line.isFenceMarker_of_item_or_blank (Or.inl item')
  exact ⟨fun _ => ⟨noMarker, noMarker'⟩, fun _ => ⟨fun _ => Or.inl item', fun _ => item⟩⟩

/-- How the lines of a document are placed. -/
def Settings.Places (s : Settings) (old new : Document) : Prop :=
  ∃ place, CloselyPlaced s.Becomes s.IsLastingItem old new place

theorem Settings.Places.trans (before : s.Places old mid) (after : s.Places mid new) : s.Places old new := by
  obtain ⟨place, placed⟩ := before
  obtain ⟨place', placed'⟩ := after
  have compose (l₁ l₂ l₃ : Line) (first : s.Becomes l₁ l₂) (second : s.Becomes l₂ l₃) : s.Becomes l₁ l₃ :=
    Relation.ReflTransGen.trans first second
  have kept (l l' : Line) (becomes : s.Becomes l l') : s.IsLastingItem l → s.IsLastingItem l' :=
    becomes.keeps LineFix.isLastingItem
  exact ⟨_, placed.trans compose (fun _ => becomes_nil) kept placed'⟩

theorem editFrom_places (s : Settings) (around : Surroundings) (d : List Line) :
    s.Places d (s.editFrom around d).value :=
  ⟨_, .of_forall₂ (editFrom_forall₂ around fun around following l _ => becomes_editLine s around following l)⟩

theorem gap_run_places (s : Settings) (around : Surroundings) (d : List Line) :
    s.Places d (s.gapLocalRule.run around d).value := by
  induction d generalizing around with
  | nil => exact ⟨_, .of_forall₂ .nil⟩
  | cons l rest ih =>
    obtain ⟨place, placed⟩ := ih (around.past l)
    rw [LocalRule.run_cons, gapLocalRule_eq_blankFor]
    cases wanted : rest.head?.bind (s.gapRule? around.inFence l) with
    | none => exact ⟨_, placed.line .refl (by rintro rfl; rfl)⟩
    | some r =>
      obtain ⟨next, first, gap⟩ := Option.bind_eq_some_iff.mp wanted
      obtain ⟨others, rfl⟩ := List.head?_eq_some_iff.mp first
      have apart (here : s.IsLastingItem l) : ¬s.IsLastingItem next := by
        intro below
        rw [gapRule?_items around.inFence here.item below.item] at gap
        contradiction
      exact ⟨_, placed.gap .refl apart⟩

theorem round_places (s : Settings) (d : Document) : s.Places d (s.round d).value := by
  rw [round_value]
  exact (editFrom_places s {} d).trans (gap_run_places s {} _)

end MarkdownTidy
