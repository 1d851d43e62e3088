import MarkdownTidy.Storage.Script

namespace MarkdownTidy.Action
variable {α β : Type} {x : Action α} {f : α → Action β} {tree : FileTree} {P : α → Prop}

theorem run_bind (x : Action α) (f : α → Action β) (tree : FileTree) :
    (x >>= f).run tree =
      match (x.run tree).result with
      | .ok a =>
        let second := (f a).run (x.run tree).tree
        ⟨second.result, second.tree, (x.run tree).notes ++ second.notes⟩
      | .error problem => ⟨.error problem, (x.run tree).tree, (x.run tree).notes⟩ := by
  unfold run
  rw [ExceptT.run_bind]
  refine (Script.run_bind _ _ tree).trans ?_
  dsimp only
  cases (Script.run (ExceptT.run x) tree).result with
  | ok a => rfl
  | error problem => exact congrArg (Script.Ran.mk _ _) (List.append_nil _)

theorem run_bind_ofExcept (x : Action α) (f : α → Except Problem β) (tree : FileTree) :
    (x >>= fun a => ofExcept (f a)).run tree =
      ⟨(x.run tree).result.bind f, (x.run tree).tree, (x.run tree).notes⟩ := by
  rw [run_bind]
  cases (x.run tree).result with
  | ok a => exact congrArg (Script.Ran.mk _ _) (List.append_nil _)
  | error problem => rfl

theorem result_bind_ok {b : β} (ends : ((x >>= f).run tree).result = .ok b) :
    ∃ a, (x.run tree).result = .ok a ∧ ((f a).run (x.run tree).tree).result = .ok b := by
  rw [run_bind] at ends
  split at ends
  · rename_i a first
    exact ⟨a, first, ends⟩
  · contradiction

section Known
variable {after : FileTree} {a : α} {notes : List Note}

theorem run_bind_ok (first : x.run tree = ⟨.ok a, after, notes⟩) :
    (x >>= f).run tree =
      ⟨((f a).run after).result, ((f a).run after).tree, notes ++ ((f a).run after).notes⟩ := by
  rw [run_bind, first]

theorem run_bind_error {problem : Problem} (first : x.run tree = ⟨.error problem, after, notes⟩) :
    (x >>= f).run tree = ⟨.error problem, after, notes⟩ := by
  rw [run_bind, first]

theorem run_pure (a : α) (tree : FileTree) : (pure a : Action α).run tree = ⟨.ok a, tree, []⟩ :=
  rfl

theorem run_tell (note : Note) (tree : FileTree) : (tell note).run tree = ⟨.ok (), tree, [note]⟩ :=
  rfl

theorem run_logs (records : List Log.Record) (tree : FileTree) :
    (records.forM log).run tree = ⟨.ok (), tree, records.map .logged⟩ := by
  induction records with
  | nil => rfl
  | cons record rest ih =>
    refine (run_bind_ok (run_tell (.logged record) tree)).trans ?_
    rw [ih]
    rfl

theorem run_read (path : Path) (tree : FileTree) :
    (read path).run tree = ⟨(tree.readFile path).mapError .storage, tree, []⟩ :=
  rfl

theorem run_write {path : Path} {bytes : ByteArray}
    (writes : tree.writeFile path bytes = .ok after) :
    (write path bytes).run tree = ⟨.ok (), after, []⟩ := by
  unfold run write
  show Script.run (.write path bytes _) tree = _
  rw [Script.run, writes]
  rfl

theorem run_write_error {path : Path} {bytes : ByteArray} {fault : Fault}
    (refuses : tree.writeFile path bytes = .error fault) :
    (write path bytes).run tree = ⟨.error (.storage fault), tree, []⟩ := by
  unfold run write
  show Script.run (.write path bytes _) tree = _
  rw [Script.run, refuses]
  rfl

theorem run_during {step : Step} {target : Path} (notes : List Note)
    (inner : x.run tree = ⟨.ok a, after, notes⟩) :
    (during step target x).run tree =
      ⟨.ok a, after, .started step target :: (notes ++ [.ended step])⟩ := by
  unfold during
  rw [run_bind_ok (run_tell _ _), run_bind_ok inner]
  rfl

theorem run_during_error {step : Step} {target : Path} {problem : Problem} (notes : List Note)
    (inner : x.run tree = ⟨.error problem, after, notes⟩) :
    (during step target x).run tree = ⟨.error problem, after, .started step target :: notes⟩ := by
  unfold during
  rw [run_bind_ok (run_tell _ _), run_bind_error inner]
  rfl

end Known

/-- Whenever the action ends well, its result has the property. -/
def Yields (x : Action α) (P : α → Prop) : Prop :=
  ∀ tree a, (x.run tree).result = .ok a → P a

namespace Yields

theorem any (x : Action α) : x.Yields fun _ => True :=
  fun _ _ _ => trivial

theorem pure {a : α} (holds : P a) : Yields (Pure.pure a) P := by
  intro tree b ends
  cases ends
  exact holds

theorem bind {Q : β → Prop} (first : x.Yields P) (later : ∀ a, P a → (f a).Yields Q) :
    (x >>= f).Yields Q := by
  intro tree b ends
  obtain ⟨a, here, others⟩ := result_bind_ok ends
  exact later a (first tree a here) _ b others

theorem during {step : Step} {target : Path} (inner : x.Yields P) :
    (Action.during step target x).Yields P :=
  (any _).bind fun _ _ => inner.bind fun _ holds => (any _).bind fun _ _ => pure holds

end Yields
end MarkdownTidy.Action
