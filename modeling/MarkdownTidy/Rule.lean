import MarkdownTidy.Problem
import MarkdownTidy.Text.WhiteSpace

namespace MarkdownTidy

/-- The markdownlint rules that can be put right. -/
inductive Rule where
  | trailingSpaces
  | boldHeading
  | fenceLanguage
  | bareUrl
  | fenceSpacing
  | listSpacing
  deriving DecidableEq

namespace Rule

/-- Every rule, in the order of reports. -/
def all : List Rule :=
  [boldHeading, listSpacing, fenceSpacing, fenceLanguage, bareUrl, trailingSpaces]

theorem mem_all (r : Rule) : r ∈ all := by
  cases r <;> decide

theorem all_nodup : all.Nodup := by
  decide

def code : Rule → String
  | trailingSpaces => "MD009"
  | boldHeading => "MD036"
  | fenceLanguage => "MD040"
  | bareUrl => "MD034"
  | fenceSpacing => "MD031"
  | listSpacing => "MD032"

/-- What fixing the rule does, in the past tense of a report. -/
def description : Rule → String
  | trailingSpaces => "Removed trailing spaces"
  | boldHeading => "Converted bold text to proper headings"
  | fenceLanguage => "Added language specifiers to code blocks"
  | bareUrl => "Wrapped bare URLs"
  | fenceSpacing => "Added blank lines around code blocks"
  | listSpacing => "Added blank lines around lists"

/-- Whether a word is the code of the rule, in any ASCII case. -/
def hasCode (r : Rule) (word : Text) : Bool :=
  r.code.toList.map Char.toLower == word.map Char.toLower

/-- The rule with a given code. White space around the code does not matter. -/
def ofCode (code : String) : Except Problem Rule :=
  let word := Text.trim code.toList
  match all.find? (·.hasCode word) with
  | some r => .ok r
  | none => .error (.unknownRule (String.ofList word))

theorem ofCode_code (r : Rule) : ofCode r.code = .ok r := by
  cases r <;> rfl

end Rule
end MarkdownTidy
