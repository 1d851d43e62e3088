import MarkdownTidy.Line.Class
import MarkdownTidy.Text.Occurrence

namespace MarkdownTidy

/-- The languages that a fenced code block can be tagged with. -/
inductive Language where
  | python
  | javascript
  | bash
  | json
  | http
  | text
  deriving DecidableEq

namespace Language

/-- The word that stands after the fence. -/
def tag : Language → String
  | python => "python"
  | javascript => "javascript"
  | bash => "bash"
  | json => "json"
  | http => "http"
  | text => "text"

/-- How the first line of a block starts in each language that its start gives away. The order
decides: `class ` is Python. -/
def openings : List (Language × List String) :=
  [(python, ["def ", "class ", "import ", "from ", "print(", "for ", "if ", "return"]),
   (javascript, ["const ", "let ", "var ", "function ", "class ", "=>"]),
   (bash, ["$", "#", "cd ", "ls ", "mkdir ", "rm ", "cat ", "echo "]),
   (json, ["\x7b", "["])]

/-- What shows an HTTP message anywhere in its first line. -/
def httpSigns : List String :=
  ["GET ", "POST ", "HTTP"]

def opensWith (starts : List String) (t : Text) : Bool :=
  starts.any fun start => start.toList.isPrefixOf t

/-- The language of the block whose first line is given. The start of the line is looked at
without its indent; the signs of HTTP may stand anywhere. -/
def infer (first : Line) : Language :=
  match openings.find? fun (_, starts) => opensWith starts first.trim with
  | some (language, _) => language
  | none => if httpSigns.any fun sign => Text.occursIn sign.toList first then http else text

end Language
end MarkdownTidy
