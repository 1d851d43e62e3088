import MarkdownTidy.Proofs.Storage.Actions

namespace MarkdownTidy
variable {α β : Type} {P : FileTree → Prop} {t later : FileTree}

namespace Script

/-- The files as they can be found at some time of a run, when any write can go wrong: it is refused,
or it breaks off and leaves some bytes in the file. A script that still goes on is told of a fault. -/
inductive Reaches (later : FileTree) : Script α → FileTree → Prop
  | here {x : Script α} : Reaches later x later
  | read {path : Path} {next : Except Fault ByteArray → Script α} {t : FileTree}
      (rest : Reaches later (next (t.readFile path)) t) : Reaches later (.read path next) t
  | written {path : Path} {bytes : ByteArray} {next : Except Fault Unit → Script α}
      {t after : FileTree} (writes : t.writeFile path bytes = .ok after)
      (rest : Reaches later (next (.ok ())) after) : Reaches later (.write path bytes next) t
  | refused {path : Path} {bytes : ByteArray} {next : Except Fault Unit → Script α}
      {t : FileTree} (fault : Fault) (rest : Reaches later (next (.error fault)) t) :
      Reaches later (.write path bytes next) t
  | brokenOff {path : Path} {bytes : ByteArray} {next : Except Fault Unit → Script α}
      {t after : FileTree} (left : ByteArray) (writes : t.writeFile path left = .ok after)
      (fault : Fault) (rest : Reaches later (next (.error fault)) after) :
      Reaches later (.write path bytes next) t
  | told {note : Note} {next : Script α} {t : FileTree} (rest : Reaches later next t) :
      Reaches later (.tell note next) t

theorem Reaches.bind {x : Script α} {f : α → Script β}
    (reach : Reaches later (f (x.run t).result) (x.run t).tree) : Reaches later (x.bind f) t := by
  induction x generalizing t with
  | done _ => exact reach
  | read path next ih => exact .read (ih _ reach)
  | tell note next ih => exact .told (ih reach)
  | write path bytes next ih =>
    rw [run] at reach
    cases writes : t.writeFile path bytes with
    | ok after =>
      rw [writes] at reach
      exact .written writes (ih _ reach)
    | error fault =>
      rw [writes] at reach
      exact .refused fault (ih _ reach)

/-- A run without mishaps reaches the files that it leaves. -/
theorem reaches_run (x : Script α) (t : FileTree) : Reaches (x.run t).tree x t := by
  have reach : Reaches (x.run t).tree (x.bind done) t := Reaches.bind .here
  rwa [bind_done] at reach

/-- The files have a property at all times of a run, and its result and the files at its end are as
asked for. -/
def Keeps (P : FileTree → Prop) (Q : α → FileTree → Prop) : Script α → FileTree → Prop
  | .done result, t => P t ∧ Q result t
  | .read path next, t => P t ∧ (next (t.readFile path)).Keeps P Q t
  | .write path bytes next, t =>
    P t ∧ (∀ fault, (next (.error fault)).Keeps P Q t) ∧
      (∀ after, t.writeFile path bytes = .ok after → (next (.ok ())).Keeps P Q after) ∧
        ∀ left after fault, t.writeFile path left = .ok after →
          (next (.error fault)).Keeps P Q after
  | .tell _ next, t => P t ∧ next.Keeps P Q t

namespace Keeps
variable {Q : α → FileTree → Prop} {x : Script α}

theorem now (keeps : x.Keeps P Q t) : P t := by
  cases x <;> exact keeps.1

theorem reached (keeps : x.Keeps P Q t) (reach : Reaches later x t) : P later := by
  induction reach with
  | here => exact keeps.now
  | read _ ih => exact ih keeps.2
  | refused fault _ ih => exact ih (keeps.2.1 fault)
  | written writes _ ih => exact ih (keeps.2.2.1 _ writes)
  | brokenOff left writes fault _ ih => exact ih (keeps.2.2.2 left _ fault writes)
  | told _ ih => exact ih keeps.2

theorem bind {R : β → FileTree → Prop} {f : α → Script β} (keeps : x.Keeps P Q t)
    (later : ∀ a t, P t → Q a t → (f a).Keeps P R t) : (x.bind f).Keeps P R t := by
  induction x generalizing t with
  | done result => exact later result t keeps.1 keeps.2
  | read path next ih => exact ⟨keeps.1, ih _ keeps.2⟩
  | write path bytes next ih =>
    obtain ⟨safe, refused, written, brokenOff⟩ := keeps
    exact ⟨safe, fun fault => ih _ (refused fault), fun after writes => ih _ (written after writes),
      fun left after fault writes => ih _ (brokenOff left after fault writes)⟩
  | tell note next ih => exact ⟨keeps.1, ih keeps.2⟩

theorem mono {R : α → FileTree → Prop} (keeps : x.Keeps P Q t) (more : ∀ a t, Q a t → R a t) :
    x.Keeps P R t := by
  rw [← bind_done x]
  exact keeps.bind fun a t safe ends => ⟨safe, more a t ends⟩

end Keeps
end Script

namespace Action

/-- The files have a property at all times of a run, and if the action ends well, its result and the
files at its end are as asked for. -/
def Keeps (P : FileTree → Prop) (Q : α → FileTree → Prop) (x : Action α) (t : FileTree) : Prop :=
  Script.Keeps P (fun result t => ∀ a, result = .ok a → Q a t) (ExceptT.run x) t

namespace Keeps
variable {Q : α → FileTree → Prop} {R : β → FileTree → Prop} {x : Action α} {f : α → Action β}
  {path : Path}

theorem pure {a : α} (safe : P t) (ends : Q a t) : Keeps P Q (Pure.pure a) t := by
  refine ⟨safe, ?_⟩
  rintro _ ⟨⟩
  exact ends

theorem throw {problem : Problem} (safe : P t) : Keeps P Q (MonadExcept.throw problem) t :=
  ⟨safe, nofun⟩

theorem bind (keeps : x.Keeps P Q t) (later : ∀ a t, P t → Q a t → (f a).Keeps P R t) :
    (x >>= f).Keeps P R t := by
  refine Script.Keeps.bind (f := ExceptT.bindCont f) keeps ?_
  intro result t safe ends
  cases result with
  | ok a => exact later a t safe (ends a rfl)
  | error problem => exact ⟨safe, nofun⟩

theorem mono {R : α → FileTree → Prop} (keeps : x.Keeps P Q t) (more : ∀ a t, Q a t → R a t) :
    x.Keeps P R t :=
  Script.Keeps.mono keeps fun _ t ends a same => more a t (ends a same)

theorem tell {note : Note} (safe : P t) : Keeps P (fun _ after => after = t) (Action.tell note) t :=
  ⟨safe, safe, fun _ _ => rfl⟩

theorem read (safe : P t) :
    Keeps P (fun bytes after => after = t ∧ t.readFile path = .ok bytes) (Action.read path) t := by
  refine ⟨safe, safe, fun bytes ends => ⟨rfl, ?_⟩⟩
  cases found : t.readFile path with
  | ok here =>
    rw [found] at ends
    cases ends
    rfl
  | error fault =>
    rw [found] at ends
    cases ends

theorem write {bytes : ByteArray} (safe : P t)
    (parts : ∀ left after, t.writeFile path left = .ok after → P after) :
    Keeps P (fun _ after => t.writeFile path bytes = .ok after) (Action.write path bytes) t := by
  refine ⟨safe, fun fault => ⟨safe, nofun⟩, fun after writes => ?_, fun left after fault writes => ?_⟩
  · exact ⟨parts bytes after writes, fun _ _ => writes⟩
  · exact ⟨parts left after writes, nofun⟩

theorem during {step : Step} {target : Path} (inner : x.Keeps P Q t) :
    (Action.during step target x).Keeps P Q t := by
  refine (tell inner.now).bind ?_
  rintro _ _ safe rfl
  refine inner.bind fun a t safe ends => (tell safe).bind ?_
  rintro _ _ safe rfl
  exact pure safe ends

theorem logs (safe : P t) (records : List Log.Record) :
    Keeps P (fun _ after => after = t) (records.forM Action.log) t := by
  induction records with
  | nil => exact pure safe rfl
  | cons record rest ih =>
    refine (tell safe).bind ?_
    rintro _ _ safe rfl
    exact ih

end Keeps

/-- What is reached after an action has ended well is reached when another goes before. -/
theorem reaches_bind {x : Action α} {f : α → Action β} {a : α} {after : FileTree}
    {notes : List Note} (first : x.run t = ⟨.ok a, after, notes⟩)
    (reach : Script.Reaches later (ExceptT.run (f a)) after) :
    Script.Reaches later (ExceptT.run (x >>= f)) t := by
  refine Script.Reaches.bind (f := ExceptT.bindCont f) ?_
  change Script.Reaches later (ExceptT.bindCont f (x.run t).result) (x.run t).tree
  rw [first]
  exact reach

end Action
end MarkdownTidy
