import MarkdownTidy.Document.Editing

namespace MarkdownTidy

/-- What becomes of a line, told from its surroundings, the line after it and the line itself. -/
abbrev LocalRule :=
  Surroundings → Option Line → Line → Counted (List Line)

/-- A pass over lines in which each line sees the lines around it as they were. -/
def LocalRule.run (rule : LocalRule) (around : Surroundings) : List Line → Counted (List Line)
  | [] => pure []
  | l :: rest => do
    let here ← rule around rest.head? l
    let others ← LocalRule.run rule (around.past l) rest
    pure (here ++ others)

/-- A property of all lines in their places. -/
def EveryLine (P : Surroundings → Option Line → Line → Prop) (around : Surroundings) :
    List Line → Prop
  | [] => True
  | l :: rest => P around rest.head? l ∧ EveryLine P (around.past l) rest

theorem everyLine_iff {P : Surroundings → Option Line → Line → Prop} {around : Surroundings}
    {d : List Line} :
    EveryLine P around d ↔
      ∀ before l after, d = before ++ l :: after → P (before.foldl .past around) after.head? l := by
  induction d generalizing around with
  | nil => simp [EveryLine]
  | cons first rest ih =>
    rw [EveryLine, ih]
    constructor
    · rintro ⟨here, later⟩ before l after parts
      cases before with
      | nil =>
        obtain ⟨rfl, rfl⟩ := List.cons.inj parts
        exact here
      | cons b before =>
        obtain ⟨rfl, others⟩ := List.cons.inj parts
        exact later before l after others
    · intro all
      refine ⟨all [] first rest rfl, ?_⟩
      intro before l after parts
      exact all (first :: before) l after (by rw [parts, List.cons_append])

theorem EveryLine.imp {P Q : Surroundings → Option Line → Line → Prop} {around : Surroundings}
    {d : List Line} (every : EveryLine P around d)
    (weaker : ∀ around following l, P around following l → Q around following l) :
    EveryLine Q around d := by
  rw [everyLine_iff] at every ⊢
  intro before l after parts
  exact weaker _ _ _ (every before l after parts)

namespace LocalRule
variable {rule : LocalRule} {around : Surroundings} {d : List Line}

theorem run_cons (rule : LocalRule) (around : Surroundings) (l : Line) (rest : List Line) :
    rule.run around (l :: rest) =
      ⟨(rule around rest.head? l).value ++ (rule.run (around.past l) rest).value,
        (rule around rest.head? l).counts + (rule.run (around.past l) rest).counts⟩ := by
  refine Counted.ext_parts rfl ?_
  rw [run, Counted.bind_counts, Counted.bind_counts, Counted.pure_counts, Counts.add_zero]

theorem run_eq_pure
    (alone : EveryLine (fun around following l => rule around following l = pure [l]) around d) :
    rule.run around d = pure d := by
  induction d generalizing around with
  | nil => rfl
  | cons l rest ih =>
    obtain ⟨here, later⟩ := alone
    rw [run_cons, here, ih later]
    rfl

/-- Rules that do the same to every line in its place make the same pass. -/
theorem run_congr {rule' : LocalRule}
    (same : EveryLine (fun around following l => rule' around following l = rule around following l) around d) :
    rule'.run around d = rule.run around d := by
  induction d generalizing around with
  | nil => rfl
  | cons l rest ih =>
    obtain ⟨here, later⟩ := same
    rw [run_cons, run_cons, here, ih later]

theorem run_get_eq_zero_iff {r : Rule} :
    (rule.run around d).counts.get r = 0 ↔
      EveryLine (fun around following l => (rule around following l).counts.get r = 0) around d := by
  induction d generalizing around with
  | nil => exact ⟨fun _ => trivial, fun _ => Counts.get_zero r⟩
  | cons l rest ih => rw [run_cons, Counts.get_add, Nat.add_eq_zero_iff, ih, EveryLine]

theorem run_counts_eq_zero (none : (rule.run around d).counts = 0) :
    EveryLine (fun around following l => (rule around following l).counts = 0) around d := by
  rw [everyLine_iff]
  intro before l after parts
  refine PerRule.ext_get fun r => ?_
  have idle : (rule.run around d).counts.get r = 0 := by rw [none, Counts.get_zero]
  rw [Counts.get_zero]
  exact everyLine_iff.mp (run_get_eq_zero_iff.mp idle) before l after parts

/-- A pass over two runs of lines is a pass over each, if the last line of the first takes no notice of
what is below it. -/
theorem run_append {e : List Line}
    (seam : ∀ front l, d = front ++ [l] →
      rule (front.foldl .past around) e.head? l = rule (front.foldl .past around) none l) :
    rule.run around (d ++ e) =
      ⟨(rule.run around d).value ++ (rule.run (d.foldl .past around) e).value,
        (rule.run around d).counts + (rule.run (d.foldl .past around) e).counts⟩ := by
  induction d generalizing around with
  | nil => exact Counted.ext_parts rfl (Counts.zero_add _).symm
  | cons l rest ih =>
    have here : rule around (rest ++ e).head? l = rule around rest.head? l := by
      cases rest with
      | nil => exact seam [] l rfl
      | cons => rfl
    have later := @ih (around.past l) fun front m parts => seam (l :: front) m (by rw [parts]; rfl)
    rw [List.cons_append, run_cons, run_cons, here, later]
    refine Counted.ext_parts (List.append_assoc _ _ _).symm ?_
    exact (Counts.add_assoc _ _ _).symm

/-- Of what is above a run of lines only its first line can see more than the parity of the fence markers. -/
theorem run_congr_inFence {around' : Surroundings} (same : around'.inFence = around.inFence)
    (first : ∀ l ∈ d.head?, rule around' d.tail.head? l = rule around d.tail.head? l) :
    rule.run around' d = rule.run around d := by
  cases d with
  | nil => rfl
  | cons l rest =>
    have past : around'.past l = around.past l := by rw [Surroundings.past, Surroundings.past, same]
    have here : rule around' rest.head? l = rule around rest.head? l := first l rfl
    rw [run_cons, run_cons, here, past]

theorem run_concat (rule : LocalRule) (around : Surroundings) (front : List Line) (l : Line) :
    ∃ start, (rule.run around (front ++ [l])).value =
      start ++ (rule (front.foldl .past around) none l).value := by
  induction front generalizing around with
  | nil =>
    refine ⟨[], ?_⟩
    rw [List.nil_append, run_cons]
    exact List.append_nil _
  | cons m rest ih =>
    obtain ⟨start, last⟩ := ih (around.past m)
    rw [List.cons_append, run_cons, last]
    exact ⟨_, (List.append_assoc _ _ _).symm⟩

end LocalRule
end MarkdownTidy
