import MarkdownTidy.Counted
import MarkdownTidy.Document.Lines

namespace MarkdownTidy

/-- What an edit makes of a line, and how many fixes that is. -/
structure Edited where
  line : Line
  fixes : Nat := 1
  deriving DecidableEq

/-- An edit leaves some lines alone and makes something else of the others. -/
abbrev Edit := Line → Option Edited

namespace Edit

/-- An edit that is made only under a condition. -/
def onlyIf (condition : Bool) (edit : Edit) : Edit :=
  fun l => if condition then edit l else none

/-- The line after an edit, its fixes counted for a rule. -/
def apply (edit : Edit) (r : Rule) (l : Line) : Counted Line :=
  match edit l with
  | some edited => ⟨edited.line, .single r edited.fixes⟩
  | none => pure l

end Edit
end MarkdownTidy
