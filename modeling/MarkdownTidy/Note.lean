import MarkdownTidy.Log
import MarkdownTidy.Text.RawText

namespace MarkdownTidy

/-- The steps of tidying a file, in their order. -/
inductive Step where
  | read
  | backup
  | fix
  | write
  deriving DecidableEq

namespace Step

def all : List Step :=
  [read, backup, fix, write]

def name : Step → String
  | read => "Read"
  | backup => "Backup"
  | fix => "Fix"
  | write => "Write"

end Step

/-- What a script tells while it runs. -/
inductive Note where
  /-- A step starts that reads or writes the target. Of a failing step no end is told. -/
  | started (step : Step) (target : Path)
  | ended (step : Step)
  | logged (record : Log.Record)
  deriving DecidableEq

end MarkdownTidy
