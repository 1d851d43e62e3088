import MarkdownTidy.Proofs.Storage.TidySteps

namespace MarkdownTidy
variable {s : Settings} {path : Path} {text : String} {tree copied later : FileTree} {bytes : ByteArray}

/-- What can come of tidying a file in place: the file cannot be read as text, or its backup is
refused, and then no file is touched; or all goes well. -/
inductive FileOutcome (s : Settings) (path : Path) (tree : FileTree)
    (ran : Script.Ran (Except Problem Report)) : Prop
  | unread (problem : Problem) (cause : tree.readText path = .error problem)
      (result : ran.result = .error problem) (untouched : ran.tree = tree)
      (steps : ran.steps = [.started .read path])
  | noBackup (text : String) (fault : Fault) (reads : tree.readFile path = .ok text.toUTF8)
      (cause : tree.writeFile (backupPath path) text.toUTF8 = .error fault)
      (result : ran.result = .error (.storage fault)) (untouched : ran.tree = tree)
      (steps : ran.steps =
        [.started .read path, .ended .read, .started .backup (backupPath path)])
  | tidied (text : String) (reads : tree.readFile path = .ok text.toUTF8)
      (result : ran.result =
        .ok ⟨path, backupPath path, (s.tidy text).counts, (s.tidy text).content != text⟩)
      (backup : ran.tree.readFile (backupPath path) = .ok text.toUTF8)
      (written : ran.tree.readFile path = .ok (s.tidy text).content.toUTF8)
      (others : ∀ place, tree.locate path ≠ .ok place → tree.locate (backupPath path) ≠ .ok place →
        ran.tree.find? place = tree.find? place)
      (steps : ran.steps =
        [.started .read path, .ended .read, .started .backup (backupPath path), .ended .backup,
          .started .fix path, .ended .fix, .started .write path, .ended .write])

theorem tidyFile_outcome (s : Settings) (path : Path) (tree : FileTree) :
    FileOutcome s path tree ((s.tidyFile path).run tree) := by
  cases reads : tree.readText path with
  | error problem =>
    have ran := Action.run_tidyFile_unread (s := s) reads
    exact .unread problem reads (by rw [ran]) (by rw [ran]) (by rw [ran]; rfl)
  | ok text =>
    have original := readFile_of_readText reads
    cases copies : tree.writeFile (backupPath path) text.toUTF8 with
    | error fault =>
      have ran := Action.run_tidyFile_refused (s := s) reads copies
      exact .noBackup text fault original copies (by rw [ran]) (by rw [ran]) (by rw [ran]; rfl)
    | ok copied =>
      have stays := FileTree.readFile_write_other original copies (FileTree.locate_ne_backup original)
      obtain ⟨after, writes⟩ := FileTree.exists_write_of_readFile stays (s.tidy text).content.toUTF8
      have ran := Action.run_tidyFile reads copies writes
      refine .tidied text original (by rw [ran]) ?_ ?_ ?_ ?_
      · rw [ran]
        exact FileTree.readFile_write_other (FileTree.readFile_write_self copies) writes
          (FileTree.locate_ne_backup stays).symm
      · rw [ran]
        exact FileTree.readFile_write_self writes
      · intro place notFile notBackup
        rw [ran]
        exact (FileTree.find?_write writes (FileTree.locate_write_eq original copies ▸ notFile)).trans
          (FileTree.find?_write copies notBackup)
      · rw [ran, Script.Ran.steps, List.filter_append, List.filter_append, steps_logs]
        rfl

example : ((Settings.tidyFile {} "a.md").run
    ⟨[(["a.md"], .file "a ".toUTF8), (["a.md.backup"], .folder)]⟩).result =
      .error (.storage .isFolder) := by rfl

/-- The bytes that a file had are still in it, or else in its backup. -/
def HoldsOriginal (path : Path) (bytes : ByteArray) (tree : FileTree) : Prop :=
  tree.readFile path = .ok bytes ∨ tree.readFile (backupPath path) = .ok bytes

/-- They are in both. -/
def IsBackedUp (path : Path) (bytes : ByteArray) (tree : FileTree) : Prop :=
  tree.readFile path = .ok bytes ∧ tree.readFile (backupPath path) = .ok bytes

namespace Action

theorem readDocument_keeps (original : tree.readFile path = .ok bytes) :
    (readDocument path).Keeps (HoldsOriginal path bytes)
      (fun text t => t = tree ∧ text.toUTF8 = bytes) tree := by
  refine (Keeps.read (.inl original)).bind ?_
  rintro _ _ safe ⟨rfl, again⟩
  cases original.symm.trans again
  cases decoded : String.fromUTF8? bytes with
  | none => exact .throw safe
  | some text => exact .pure safe ⟨rfl, toUTF8_of_fromUTF8? decoded⟩

theorem writeBackup_keeps (original : tree.readFile path = .ok text.toUTF8) :
    (writeBackup path text).Keeps (HoldsOriginal path text.toUTF8)
      (fun _ => IsBackedUp path text.toUTF8) tree := by
  have apart := FileTree.locate_ne_backup original
  refine (Keeps.write (.inl original) fun left after writes => ?_).bind ?_
  · exact .inl (FileTree.readFile_write_other original writes apart)
  · intro _ after safe writes
    exact .pure safe ⟨FileTree.readFile_write_other original writes apart,
      FileTree.readFile_write_self writes⟩

theorem overwrite_keeps {new : ByteArray} (saved : IsBackedUp path bytes tree) :
    (Action.write path new).Keeps (HoldsOriginal path bytes) (fun _ _ => True) tree := by
  refine (Keeps.write (.inl saved.1) fun left after writes => .inr ?_).mono fun _ _ _ => trivial
  exact FileTree.readFile_write_other saved.2 writes (FileTree.locate_ne_backup saved.1).symm

theorem tidyFile_keeps (s : Settings) (original : tree.readFile path = .ok bytes) :
    (s.tidyFile path).Keeps (HoldsOriginal path bytes) (fun _ _ => True) tree := by
  refine .bind (Q := fun text t => t = tree ∧ text.toUTF8 = bytes) (.during ?_) ?_
  · refine (Keeps.tell (.inl original)).bind ?_
    rintro _ _ _ rfl
    exact readDocument_keeps original
  -- From here on the text that was read stands for the bytes.
  rintro text t _ ⟨rfl, rfl⟩
  refine .bind (Q := fun _ => IsBackedUp path text.toUTF8) (.during ?_) ?_
  · refine (writeBackup_keeps original).bind fun backup t safe saved => (Keeps.tell safe).bind ?_
    rintro _ _ safe rfl
    exact .pure safe saved
  intro backup t safe saved
  refine .bind (Q := fun _ after => after = t) (.during ?_) ?_
  · refine (Keeps.logs safe _).bind ?_
    rintro _ _ safe rfl
    exact .pure safe rfl
  rintro tidied _ _ rfl
  refine .bind (Q := fun _ _ => True) (.during ?_) fun _ _ safe _ => .pure safe trivial
  refine (overwrite_keeps saved).bind fun _ _ safe _ => ?_
  exact (Keeps.tell safe).mono fun _ _ _ => trivial

/-- A write that breaks off can leave anything in the file. -/
theorem tidyFile_breaks_off {left : ByteArray} (reads : tree.readText path = .ok text)
    (copies : tree.writeFile (backupPath path) text.toUTF8 = .ok copied)
    (breaks : copied.writeFile path left = .ok later) :
    Script.Reaches later (ExceptT.run (s.tidyFile path)) tree := by
  unfold Settings.tidyFile
  refine reaches_bind (run_reading reads) (reaches_bind (run_saving copies)
    (reaches_bind (run_fixing ..) (.told (.brokenOff left breaks (.refused "") .here))))

end Action

/-- Tidying a file in place leaves all files as they were, or its backup holds what was in the file, the
file the tidied text, and no other file is touched. At all times, even when a write breaks off, the bytes
that the file had are in it or in its backup. -/
theorem files_are_tidied_safely (s : Settings) (path : Path) (tree : FileTree) :
    FileOutcome s path tree ((s.tidyFile path).run tree) ∧
      ∀ bytes, tree.readFile path = .ok bytes →
        ∀ later, Script.Reaches later (ExceptT.run (s.tidyFile path)) tree →
          later.readFile path = .ok bytes ∨ later.readFile (backupPath path) = .ok bytes :=
  ⟨tidyFile_outcome s path tree, fun _ original _ reach => (Action.tidyFile_keeps s original).reached reach⟩

theorem files_are_tidied_safely_when_cut_off :
    let tree : FileTree := ⟨[(["a.md"], .file "a ".toUTF8)]⟩
    let later : FileTree := ⟨[(["a.md"], .file "".toUTF8), (["a.md.backup"], .file "a ".toUTF8)]⟩
    FileOutcome {} "a.md" tree ((Settings.tidyFile {} "a.md").run tree) ∧
      tree.readFile "a.md" = .ok "a ".toUTF8 ∧
      Script.Reaches later (ExceptT.run (Settings.tidyFile {} "a.md")) tree ∧
      later.readFile "a.md" ≠ .ok "a ".toUTF8 ∧ later.readFile "a.md.backup" = .ok "a ".toUTF8 := by
  intro tree later
  have original : tree.readFile "a.md" = .ok "a ".toUTF8 := by rfl
  have reads : tree.readText "a.md" = .ok "a " := by rfl
  have breaks : FileTree.writeFile ⟨[(["a.md.backup"], .file "a ".toUTF8),
      (["a.md"], .file "a ".toUTF8)]⟩ "a.md" "".toUTF8 = .ok later := by rfl
  have reach : Script.Reaches later (ExceptT.run (Settings.tidyFile {} "a.md")) tree :=
    Action.tidyFile_breaks_off reads (by rfl) breaks
  have lost : later.readFile "a.md" ≠ .ok "a ".toUTF8 := by
    intro same
    have empty : later.readFile "a.md" = .ok "".toUTF8 := by rfl
    exact absurd (Except.ok.inj (empty.symm.trans same)) (by decide)
  have safe := files_are_tidied_safely {} "a.md" tree
  exact ⟨safe.1, original, reach, lost, (safe.2 _ original later reach).resolve_left lost⟩

end MarkdownTidy
