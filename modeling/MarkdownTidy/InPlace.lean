import MarkdownTidy.Storage.Script
import MarkdownTidy.Text.Utf8
import MarkdownTidy.Tidied

namespace MarkdownTidy

/-- What is told about a file that was tidied in place. -/
structure Report where
  input : Path
  backup : Path
  counts : Counts
  /-- Whether the written text differs from what was read. -/
  changed : Bool
  deriving DecidableEq

def backupSuffix : String :=
  ".backup"

/-- Where the backup of a file goes: beside it, with a suffix after its full name. -/
def backupPath (path : Path) : Path :=
  path.extend backupSuffix

/-- Reads the text of a file. -/
def readDocument (path : Path) : Action String := do
  let bytes ← Action.read path
  match String.fromUTF8? bytes with
  | some text => pure text
  | none => throw (.notUtf8 path.display (Utf8.validEnd bytes))

/-- Writes a copy of a file's text to its backup path. -/
def writeBackup (path : Path) (text : String) : Action Path := do
  Action.write (backupPath path) text.toUTF8
  pure (backupPath path)

namespace Settings

/-- Tidies a file in place. Its text is in the backup before the file is overwritten. -/
def tidyFile (s : Settings) (path : Path) : Action Report := do
  let text ← Action.during .read path do
    Action.log (.reading path.display)
    readDocument path
  let backup ← Action.during .backup (backupPath path) do
    let backup ← writeBackup path text
    Action.log (.backupSaved backup.display)
    pure backup
  let tidied ← Action.during .fix path do
    let settled := s.settleText text
    settled.log.forM Action.log
    pure settled.tidied
  Action.during .write path do
    Action.write path tidied.content.toUTF8
    Action.log (.wrote path.display tidied.counts.total)
  pure ⟨path, backup, tidied.counts, tidied.content != text⟩

end Settings
end MarkdownTidy
