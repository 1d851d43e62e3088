import MarkdownTidy.Note
import MarkdownTidy.Storage.Path

namespace MarkdownTidy

/-- A program that reads and writes files and tells notes. The answers of the file system choose
how it goes on. -/
inductive Script (α : Type) where
  | done (result : α)
  | read (path : Path) (next : Except Fault ByteArray → Script α)
  | write (path : Path) (bytes : ByteArray) (next : Except Fault Unit → Script α)
  | tell (note : Note) (next : Script α)

namespace Script
variable {α β : Type}

def bind (f : α → Script β) : Script α → Script β
  | done a => f a
  | read path next => .read path fun answer => (next answer).bind f
  | write path bytes next => .write path bytes fun answer => (next answer).bind f
  | tell note next => .tell note (next.bind f)

instance : Monad Script where
  pure := done
  bind x f := x.bind f

theorem bind_done (x : Script α) : x.bind done = x := by
  induction x with
  | done _ => rfl
  | read _ _ ih => simp only [bind, ih]
  | write _ _ _ ih => simp only [bind, ih]
  | tell _ _ ih => simp only [bind, ih]

theorem bind_bind {γ : Type} (x : Script α) (f : α → Script β) (g : β → Script γ) :
    (x.bind f).bind g = x.bind fun a => (f a).bind g := by
  induction x with
  | done _ => rfl
  | read _ _ ih => simp only [bind, ih]
  | write _ _ _ ih => simp only [bind, ih]
  | tell _ _ ih => simp only [bind, ih]

instance : LawfulMonad Script :=
  LawfulMonad.mk' Script (fun x => bind_done x) (fun _ _ => rfl) bind_bind

/-- How a script ended: its result, the files as it left them and what it told. -/
structure Ran (α : Type) where
  result : α
  tree : FileTree
  notes : List Note

/-- Runs a script on a file tree. A refused write leaves the tree as it was. -/
def run : Script α → FileTree → Ran α
  | done result, t => ⟨result, t, []⟩
  | read path next, t => (next (t.readFile path)).run t
  | write path bytes next, t =>
    match t.writeFile path bytes with
    | .ok written => (next (.ok ())).run written
    | .error fault => (next (.error fault)).run t
  | tell note next, t =>
    let ran := next.run t
    { ran with notes := note :: ran.notes }

/-- A script that goes on with another runs it on the files as it left them. -/
theorem run_bind (x : Script α) (f : α → Script β) (t : FileTree) :
    (x.bind f).run t =
      let first := x.run t
      let second := (f first.result).run first.tree
      ⟨second.result, second.tree, first.notes ++ second.notes⟩ := by
  induction x generalizing t with
  | done _ => rfl
  | read _ _ ih => simp only [bind, run, ih]
  | write path bytes _ ih =>
    simp only [bind, run]
    cases t.writeFile path bytes <;> simp only [ih]
  | tell _ _ ih => simp only [bind, run, ih, List.cons_append]

end Script

/-- A script that a problem can end. -/
abbrev Action := ExceptT Problem Script

namespace Action

/-- Goes on with a value, unless there is a problem instead of it. -/
def ofExcept {α : Type} (value : Except Problem α) : Action α :=
  ExceptT.mk (.done value)

def read (path : Path) : Action ByteArray :=
  ExceptT.mk (Script.read path fun answer => .done (answer.mapError .storage))

def write (path : Path) (bytes : ByteArray) : Action Unit :=
  ExceptT.mk (Script.write path bytes fun answer => .done (answer.mapError .storage))

def tell (note : Note) : Action Unit :=
  ExceptT.mk (Script.tell note (.done (.ok ())))

def log (record : Log.Record) : Action Unit :=
  tell (.logged record)

/-- Tells the start and the end of a step around what it does. A problem leaves out the end. -/
def during {α : Type} (step : Step) (target : Path) (action : Action α) : Action α := do
  tell (.started step target)
  let result ← action
  tell (.ended step)
  pure result

/-- Runs an action on a file tree. -/
def run {α : Type} (action : Action α) (t : FileTree) : Script.Ran (Except Problem α) :=
  Script.run (ExceptT.run action) t

end Action
end MarkdownTidy
