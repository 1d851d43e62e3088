import MarkdownTidy.Proofs.Command.Outputs
import MarkdownTidy.Proofs.Command.Words

namespace MarkdownTidy

namespace Rule

/-- Whether a code is that of the rule. White space around it and the ASCII case of its letters do not matter. -/
def isNamedBy (r : Rule) (code : String) : Bool :=
  (Text.trim code.toList).map Char.toLower == r.code.toList.map Char.toLower

end Rule

/-- The rules that a list of codes names. -/
def RuleSet.named (codes : List String) : RuleSet :=
  .ofFn fun r => codes.any r.isNamedBy

namespace Arguments

/-- The value of a word that selects rules. -/
def Word.only? : Word → Option String
  | .only _ value => some value
  | _ => none

/-- The codes in a value, between its commas. -/
def codesOf (value : String) : List String :=
  (value.toList.splitOn ',').map String.ofList

namespace Invocation

/-- The values by which rules are selected. -/
def selections (i : Invocation) : List String :=
  i.allWords.filterMap Word.only?

/-- The codes of the selected rules, in order. -/
def codes (i : Invocation) : List String :=
  i.selections.flatMap codesOf

/-- All that is said but for the selection of rules. -/
def others (i : Invocation) : List Word :=
  i.allWords.filter (·.only?.isNone)

end Invocation
end Arguments

variable {r q : Rule} {code : String} {codes : List String} {c : Command}

/-! The rules that codes name. -/

namespace Rule

end Rule

namespace Command

theorem run_congr {c c' : Command} (input : c.input = c'.input) (output : c.output = c'.output)
    (settings : c.settings = c'.settings) (colors : Bool) : c.run colors = c'.run colors := by
  simp only [run, action, input, output, settings]

end Command

namespace Arguments
variable {w : Word} {i : Invocation}

end Arguments

open Arguments

end MarkdownTidy
