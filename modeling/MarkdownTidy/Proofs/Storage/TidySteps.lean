import MarkdownTidy.Proofs.Storage.Interruptions
import MarkdownTidy.Proofs.Storage.Places

namespace MarkdownTidy
variable {s : Settings} {path : Path} {text : String} {tree copied after : FileTree} {bytes : ByteArray}
  {problem : Problem} {fault : Fault}

/-- The text of a file, or why it cannot be read. -/
def FileTree.readText (t : FileTree) (path : Path) : Except Problem String :=
  match t.readFile path with
  | .error fault => .error (.storage fault)
  | .ok bytes =>
    match String.fromUTF8? bytes with
    | some text => .ok text
    | none => .error (.notUtf8 path.display (Utf8.validEnd bytes))

theorem toUTF8_of_fromUTF8? (decoded : String.fromUTF8? bytes = some text) : text.toUTF8 = bytes := by
  unfold String.fromUTF8? at decoded
  split at decoded
  · cases decoded
    rfl
  · contradiction

theorem readFile_of_readText (reads : tree.readText path = .ok text) :
    tree.readFile path = .ok text.toUTF8 := by
  unfold FileTree.readText at reads
  split at reads
  · contradiction
  · rename_i bytes found
    split at reads
    · rename_i text' decoded
      cases reads
      rw [found, toUTF8_of_fromUTF8? decoded]
    · contradiction

/-- What was told of steps, without the log. -/
def Script.Ran.steps {α : Type} (ran : Script.Ran α) : List Note :=
  ran.notes.filter fun note => note matches .started .. | .ended _

theorem steps_logs (records : List Log.Record) :
    ((records.map Note.logged).filter fun note => note matches .started .. | .ended _) = [] := by
  simp [List.filter_eq_nil_iff]

namespace Action

theorem run_readDocument (path : Path) (tree : FileTree) :
    (readDocument path).run tree = ⟨tree.readText path, tree, []⟩ := by
  have answer := run_read path tree
  unfold readDocument FileTree.readText
  cases found : tree.readFile path with
  | error fault =>
    rw [found] at answer
    exact run_bind_error answer
  | ok bytes =>
    rw [found] at answer
    rw [run_bind_ok answer]
    dsimp only
    cases String.fromUTF8? bytes <;> rfl

/-! The steps of tidying a file, one by one. -/

theorem run_reading (reads : tree.readText path = .ok text) :
    (during .read path do log (.reading path.display); readDocument path).run tree =
      ⟨.ok text, tree, [.started .read path, .logged (.reading path.display), .ended .read]⟩ := by
  refine run_during [.logged (.reading path.display)] ?_
  rw [log, run_bind_ok (run_tell _ _), run_readDocument, reads]
  rfl

theorem run_reading_error (fails : tree.readText path = .error problem) :
    (during .read path do log (.reading path.display); readDocument path).run tree =
      ⟨.error problem, tree, [.started .read path, .logged (.reading path.display)]⟩ := by
  refine run_during_error [.logged (.reading path.display)] ?_
  rw [log, run_bind_ok (run_tell _ _), run_readDocument, fails]
  rfl

theorem run_saving (copies : tree.writeFile (backupPath path) text.toUTF8 = .ok copied) :
    (during .backup (backupPath path) do
      let backup ← writeBackup path text
      log (.backupSaved backup.display)
      pure backup).run tree =
      ⟨.ok (backupPath path), copied, [.started .backup (backupPath path),
        .logged (.backupSaved (backupPath path).display), .ended .backup]⟩ := by
  have saved : (writeBackup path text).run tree = ⟨.ok (backupPath path), copied, []⟩ :=
    run_bind_ok (run_write copies)
  refine run_during [.logged (.backupSaved (backupPath path).display)] ?_
  rw [run_bind_ok saved, log, run_bind_ok (run_tell _ _)]
  rfl

theorem run_saving_error (refuses : tree.writeFile (backupPath path) text.toUTF8 = .error fault) :
    (during .backup (backupPath path) do
      let backup ← writeBackup path text
      log (.backupSaved backup.display)
      pure backup).run tree =
      ⟨.error (.storage fault), tree, [.started .backup (backupPath path)]⟩ :=
  run_during_error [] (run_bind_error (run_bind_error (run_write_error refuses)))

theorem run_fixing (s : Settings) (path : Path) (text : String) (tree : FileTree) :
    (during .fix path do
      let settled := s.settleText text
      settled.log.forM log
      pure settled.tidied).run tree =
      ⟨.ok (s.tidy text), tree, .started .fix path ::
        ((s.settleText text).log.map .logged ++ [.ended .fix])⟩ := by
  refine run_during _ ?_
  rw [run_bind_ok (run_logs _ _), run_pure, List.append_nil]
  rfl

theorem run_writing {tidied : Tidied}
    (writes : tree.writeFile path tidied.content.toUTF8 = .ok after) :
    (during .write path do
      Action.write path tidied.content.toUTF8
      log (.wrote path.display tidied.counts.total)).run tree =
      ⟨.ok (), after, [.started .write path, .logged (.wrote path.display tidied.counts.total),
        .ended .write]⟩ := by
  refine run_during [.logged (.wrote path.display tidied.counts.total)] ?_
  rw [run_bind_ok (run_write writes)]
  rfl

theorem run_tidyFile_unread (fails : tree.readText path = .error problem) :
    (s.tidyFile path).run tree =
      ⟨.error problem, tree, [.started .read path, .logged (.reading path.display)]⟩ :=
  run_bind_error (run_reading_error fails)

theorem run_tidyFile_refused (reads : tree.readText path = .ok text)
    (refuses : tree.writeFile (backupPath path) text.toUTF8 = .error fault) :
    (s.tidyFile path).run tree =
      ⟨.error (.storage fault), tree, [.started .read path, .logged (.reading path.display), .ended .read,
        .started .backup (backupPath path)]⟩ := by
  unfold Settings.tidyFile
  rw [run_bind_ok (run_reading reads), run_bind_error (run_saving_error refuses)]
  rfl

theorem run_tidyFile (reads : tree.readText path = .ok text)
    (copies : tree.writeFile (backupPath path) text.toUTF8 = .ok copied)
    (writes : copied.writeFile path (s.tidy text).content.toUTF8 = .ok after) :
    (s.tidyFile path).run tree =
      ⟨.ok ⟨path, backupPath path, (s.tidy text).counts, (s.tidy text).content != text⟩, after,
        [.started .read path, .logged (.reading path.display), .ended .read,
          .started .backup (backupPath path), .logged (.backupSaved (backupPath path).display), .ended .backup,
          .started .fix path] ++ (s.settleText text).log.map .logged ++
        [.ended .fix, .started .write path, .logged (.wrote path.display (s.tidy text).counts.total),
          .ended .write]⟩ := by
  unfold Settings.tidyFile
  rw [run_bind_ok (run_reading reads), run_bind_ok (run_saving copies), run_bind_ok (run_fixing ..),
    run_bind_ok (run_writing writes), run_pure]
  simp

end Action
end MarkdownTidy
