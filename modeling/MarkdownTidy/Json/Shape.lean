import MarkdownTidy.InPlace
import MarkdownTidy.Json.Value

namespace MarkdownTidy

/-- How the values of a type are written as JSON and read from it. -/
structure Shape (α : Type) where
  encode : α → Except Problem Json
  decode : Json → Option α

namespace Shape

def string : Shape String where
  encode text := .ok (.string text)
  decode
    | .string text => some text
    | _ => none

def bool : Shape Bool where
  encode value := .ok (.bool value)
  decode
    | .bool value => some value
    | _ => none

/-- The strings of JSON are texts, so that no other path can be written. -/
def path : Shape Path where
  encode path :=
    match path.text? with
    | some text => string.encode text
    | none => .error .pathNotText
  decode j := (string.decode j).map RawText.ofText

/-- A counter has 32 bits, and is read only from a number without a point. -/
def counter : Shape Nat where
  encode n := .ok (.nat n)
  decode
    | .number (.ofNat n) 0 => if n < UInt32.size then some n else none
    | _ => none

/-- One of several values, written as its name. It is also read from an object whose one member
has that name and the value null. -/
def oneOf {α : Type} (values : List α) (name : α → String) : Shape α where
  encode a := .ok (.string (name a))
  decode
    | .string text => values.find? fun a => name a = text
    | .object [(text, .null)] => values.find? fun a => name a = text
    | _ => none

def ruleName : Rule → String
  | .trailingSpaces => "TrailingSpaces"
  | .boldHeading => "BoldHeading"
  | .fenceLanguage => "FenceLanguage"
  | .bareUrl => "BareUrl"
  | .fenceSpacing => "FenceSpacing"
  | .listSpacing => "ListSpacing"

def trackingName : FenceTracking → String
  | .adjacency => "Adjacency"
  | .parity => "Parity"

def rule : Shape Rule :=
  oneOf Rule.all ruleName

def tracking : Shape FenceTracking :=
  oneOf [.adjacency, .parity] trackingName

def language : Shape Language :=
  oneOf [.python, .javascript, .bash, .json, .http, .text] Language.tag

/-- The member names of counts, in the order in which they are written. -/
def countNames : List String :=
  ["trailing_spaces", "bold_headings", "fence_languages", "bare_urls", "fence_spacing",
   "list_spacing"]

def counts : Shape Counts where
  encode c := do
    let numbers ← [c.trailingSpaces, c.boldHeadings, c.fenceLanguages, c.bareUrls, c.fenceSpacing,
      c.listSpacing].mapM counter.encode
    pure (.object (countNames.zip numbers))
  decode j := do
    match ← j.fields? countNames with
    | [a, b, c, d, e, f] =>
      some ⟨← counter.decode a, ← counter.decode b, ← counter.decode c, ← counter.decode d,
        ← counter.decode e, ← counter.decode f⟩
    | _ => none

def tidied : Shape Tidied where
  encode t := do
    pure (.object [("content", ← string.encode t.content), ("stats", ← counts.encode t.counts)])
  decode j := do
    match ← j.fields? ["content", "stats"] with
    | [a, b] => some ⟨← string.decode a, ← counts.decode b⟩
    | _ => none

def report : Shape Report where
  encode r := do
    pure (.object
      [("input", ← path.encode r.input), ("backup", ← path.encode r.backup),
       ("stats", ← counts.encode r.counts), ("changed", ← bool.encode r.changed)])
  decode j := do
    match ← j.fields? ["input", "backup", "stats", "changed"] with
    | [a, b, c, d] =>
      some ⟨← path.decode a, ← path.decode b, ← counts.decode c, ← bool.decode d⟩
    | _ => none

end Shape
end MarkdownTidy
