import MarkdownTidy.Command.Arguments
import MarkdownTidy.Command.Summary
import MarkdownTidy.Json.Printer
import MarkdownTidy.Json.Shape

namespace MarkdownTidy

/-- How a run of the command ends. -/
structure Exit where
  code : Nat
  stdout : String := ""
  stderr : String := ""
  deriving DecidableEq

/-- The report as the command prints it. -/
def Report.json (r : Report) : Except Problem String :=
  (Shape.report.encode r).map fun json => json.pretty 0 ++ "\n"

namespace Command

def versionText : String :=
  "mdfix 0.1.0\n"

/-- What there is to say on the command line, each with a line on what it does. -/
def helpText : String :=
  "Fix common markdownlint issues in a Markdown file\n\n" ++
  "[FILE]\n" ++
  "    Markdown file to fix in place\n" ++
  "--stdout\n" ++
  "    Print the fixed document to stdout instead of writing it (no backup is made)\n" ++
  "--json\n" ++
  "    Print fix statistics as JSON\n" ++
  "--fence-tracking\n" ++
  "    Which bare fences get a language tag\n" ++
  "    adjacency: Tag every bare fence followed by a line, closing fences included\n" ++
  "    parity: Tag only fences that open a code block\n" ++
  "--only <RULES>\n" ++
  "    Only apply these rules (comma-separated markdownlint codes, e.g. MD009,MD034)\n"

/-- The settings that a command asks for. The first code that names no rule is the problem. -/
def settings (c : Command) : Except Problem Settings := do
  let base := ({} : Settings).withTracking c.tracking
  if c.only.isEmpty then pure base
  else pure (base.only (← c.only.mapM Rule.ofCode))

/-- What the command prints when all goes well. The settings are checked before any file is
touched. -/
def action (c : Command) (colors : Bool) : Action String := do
  let s ← Action.ofExcept c.settings
  match c.output with
  | .text => do
    let text ← readDocument c.input
    pure (s.tidy text).content
  | .json => do
    let report ← s.tidyFile c.input
    Action.ofExcept report.json
  | .summary => do
    let report ← s.tidyFile c.input
    pure (report.summary colors)

/-- Runs the command. A problem goes to the standard error and makes the exit code 1. -/
def run (c : Command) (colors : Bool) : Script Exit := do
  match ← ExceptT.run (c.action colors) with
  | .ok text => pure { code := 0, stdout := text }
  | .error problem =>
    let label := Emphasis.failure.paint colors "Error"
    pure { code := 1, stderr := label ++ ": " ++ problem.message ++ "\n" }

end Command

/-- Runs what the arguments ask for. Arguments that are refused make the exit code 2. -/
def runArguments (arguments : List RawText) (colors : Bool) : Script Exit :=
  match Arguments.read arguments with
  | .ok .version => pure { code := 0, stdout := Command.versionText }
  | .ok .help => pure { code := 0, stdout := Command.helpText }
  | .ok (.tidy command) => command.run colors
  | .error _ => pure { code := 2 }

end MarkdownTidy
