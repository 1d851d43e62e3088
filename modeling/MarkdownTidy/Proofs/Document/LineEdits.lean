import Mathlib.Data.List.Forall2
import MarkdownTidy.Proofs.Document.LocalPass
import MarkdownTidy.Proofs.Line.KeptKinds

namespace MarkdownTidy
variable {s : Settings} {around : Surroundings} {d : List Line}

/-- The edits of a line in its place. -/
def Settings.lineRule (s : Settings) : LocalRule := fun around following l =>
  let edited := s.editLine around following l
  ⟨[edited.value], edited.counts⟩

theorem editFrom_cons (s : Settings) (around : Surroundings) (l : Line) (rest : List Line) :
    s.editFrom around (l :: rest) =
      ⟨(s.editLine around rest.head? l).value ::
          (s.editFrom (around.past (s.editLine around rest.head? l).value) rest).value,
        (s.editLine around rest.head? l).counts +
          (s.editFrom (around.past (s.editLine around rest.head? l).value) rest).counts⟩ := by
  refine Counted.ext_parts rfl ?_
  rw [Settings.editFrom, Counted.bind_counts, Counted.bind_counts, Counted.pure_counts,
    Counts.add_zero]

/-- An edited line gives the next one the surroundings that it gave as it was, so that the lines can
be edited apart from each other. -/
theorem editFrom_eq_run (positive : 1 ≤ s.headingLevel) (around : Surroundings) (d : List Line) :
    s.editFrom around d = s.lineRule.run around d := by
  induction d generalizing around with
  | nil => rfl
  | cons l rest ih =>
    rw [editFrom_cons, LocalRule.run_cons, editLine_past positive, ih]
    rfl

theorem editFrom_forall₂ {R : Line → Line → Prop} (around : Surroundings)
    (each : ∀ around following l, l ∈ d → R (s.editLine around following l).value l) :
    List.Forall₂ R (s.editFrom around d).value d := by
  induction d generalizing around with
  | nil => exact .nil
  | cons l rest ih =>
    refine .cons (each around rest.head? l List.mem_cons_self) (ih _ ?_)
    exact fun around following m member => each around following m (List.mem_cons_of_mem l member)

theorem forall_mem_editFrom {Q : Line → Prop} (around : Surroundings)
    (each : ∀ around following l, l ∈ d → Q (s.editLine around following l).value) :
    ∀ l ∈ (s.editFrom around d).value, Q l := by
  have pairs := editFrom_forall₂ (R := fun l' _ => Q l' ∧ True) around
    fun around following l member => ⟨each around following l member, trivial⟩
  exact ((List.forall₂_and_left _ _).mp pairs).1

theorem length_editFrom (s : Settings) (around : Surroundings) (d : List Line) :
    (s.editFrom around d).value.length = d.length :=
  (editFrom_forall₂ (R := fun _ _ => True) around fun _ _ _ _ => trivial).length_eq

/-- What every line is brought to by an edit in its place holds of the edited lines in their places. -/
theorem everyLine_editFrom (positive : 1 ≤ s.headingLevel)
    {P Q : Surroundings → Option Line → Line → Prop}
    (each : ∀ around (following following' : Option Line) l, following'.isSome = following.isSome →
      P around following l → Q around following' (s.editLine around following l).value)
    (every : EveryLine P around d) : EveryLine Q around (s.editFrom around d).value := by
  induction d generalizing around with
  | nil => trivial
  | cons l rest ih =>
    obtain ⟨here, later⟩ := every
    refine ⟨each around rest.head? _ l ?_ here, ?_⟩
    -- The line below is another one after the pass, but there still is one.
    · cases rest <;> rfl
    · have past : around.past (s.editLine around rest.head? l).value = around.past l :=
        editLine_past positive around
      have others := ih later
      rwa [← past] at others

end MarkdownTidy
