import MarkdownTidy.InPlace

namespace MarkdownTidy

/-- How a word stands out on a terminal. -/
inductive Emphasis where
  | success
  | heading
  | failure
  | done
  | faint
  deriving DecidableEq

namespace Emphasis

/-- The parameters of the escape sequence that starts an emphasis. -/
def parameters : Emphasis → String
  | success => "1;32"
  | heading => "1;36"
  | failure => "1;31"
  | done => "32"
  | faint => "2"

/-- A word with an emphasis, where colors are wanted. -/
def paint (colors : Bool) (e : Emphasis) (word : String) : String :=
  if colors then "\x1b[" ++ e.parameters ++ "m" ++ word ++ "\x1b[0m" else word

end Emphasis

namespace Report

/-- The line of a summary for one rule. A rule that was applied has a tick. -/
def ruleLine (colors : Bool) (number : Nat) (rule : Rule) (fixes : Nat) : String :=
  let mark := if 0 < fixes then Emphasis.done.paint colors "✓" else Emphasis.faint.paint colors "·"
  "  " ++ toString number ++ ". " ++ mark ++ " " ++ rule.description ++ " (" ++ rule.code ++
    "): " ++ toString fixes ++ "\n"

/-- What the command prints about a file that it tidied in place. -/
def summary (colors : Bool) (r : Report) : String :=
  "\n" ++ Emphasis.success.paint colors "✓ Markdown fixes applied successfully!" ++ "\n" ++
  "  " ++ Emphasis.faint.paint colors "├─" ++ " Backup saved to: " ++ r.backup.display ++ "\n" ++
  "  " ++ Emphasis.faint.paint colors "└─" ++ " Fixed file: " ++ r.input.display ++ "\n" ++
  "\n" ++ Emphasis.heading.paint colors "Fixes applied:" ++ "\n" ++
  String.join ((r.counts.entries.zipIdx 1).map fun ((rule, fixes), number) =>
    ruleLine colors number rule fixes)

end Report
end MarkdownTidy
