import MarkdownTidy.PerRule

namespace MarkdownTidy

namespace Log

/-- How much attention a record asks for. -/
inductive Level where
  | info
  | debug
  deriving DecidableEq

def Level.name : Level → String
  | info => "INFO"
  | debug => "DEBUG"

/-- What the log tells. -/
inductive Record where
  /-- A file is about to be read. -/
  | reading (path : String)
  | backupSaved (backup : String)
  /-- The round of the given number, counted from one, and its fixes. -/
  | round (number fixes : Nat)
  /-- The fixes for one rule over all rounds. -/
  | applied (rule : Rule) (fixes : Nat)
  | wrote (path : String) (fixes : Nat)
  deriving DecidableEq

namespace Record

def level : Record → Level
  | reading _ => .info
  | backupSaved _ => .info
  | round _ _ => .debug
  | applied _ _ => .debug
  | wrote _ _ => .info

def text : Record → String
  | reading path => "Reading " ++ path
  | backupSaved backup => "Backup saved to " ++ backup
  | round number fixes => "round " ++ toString number ++ ": " ++ toString fixes ++ " fixes applied"
  | applied rule fixes =>
    rule.code ++ " (" ++ rule.description ++ "): " ++ toString fixes
  | wrote path fixes => "Wrote " ++ path ++ " (" ++ toString fixes ++ " fixes applied)"

end Record

/-- One record for each round, numbered from one. -/
def ofRounds (rounds : List Counts) : List Record :=
  (rounds.zipIdx 1).map fun (counts, number) => .round number counts.total

/-- One record for each rule that was applied, in the order of reports. -/
def ofCounts (counts : Counts) : List Record :=
  (counts.entries.filter fun (_, n) => n != 0).map fun (rule, n) => .applied rule n

end Log
end MarkdownTidy
