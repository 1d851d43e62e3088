import MarkdownTidy.Settings
import MarkdownTidy.Text.RawText

namespace MarkdownTidy

/-- What the command writes once the document is tidied. -/
inductive Output where
  /-- The file in place, and a summary. -/
  | summary
  /-- The file in place, and a report as JSON. -/
  | json
  /-- Nothing but the tidied text, and that to the standard output. -/
  | text
  deriving DecidableEq

/-- One run of the command. -/
structure Command where
  input : Path
  output : Output := .summary
  tracking : FenceTracking := .adjacency
  /-- The rule codes that were asked for. With none all rules are on. -/
  only : List String := []
  deriving DecidableEq

/-- What the arguments ask for. -/
inductive Request where
  | version
  | help
  | tidy (command : Command)
  deriving DecidableEq

/-- Why arguments are refused. -/
inductive UsageError where
  | unknownOption
  | notText
  | missingValue
  | unexpectedValue
  | invalidValue
  | repeatedOption
  | conflict
  | unexpectedFile
  | emptyFile
  deriving DecidableEq

namespace Arguments

/-- The file that is tidied when none is named. -/
def defaultInput : String :=
  "AI LLM Red Team Hand book.md"

/-- What the arguments so far have given. -/
structure Given where
  file : Option Path := none
  text : Bool := false
  json : Bool := false
  tracking : Option FenceTracking := none
  only : List String := []

namespace Given

def addFile (g : Given) (argument : RawText) : Except UsageError Given :=
  if g.file.isSome then .error .unexpectedFile
  else if argument.bytes.isEmpty then .error .emptyFile
  else .ok { g with file := some argument }

def addTracking (g : Given) (value : String) : Except UsageError Given :=
  if g.tracking.isSome then .error .repeatedOption
  else if value = "adjacency" then .ok { g with tracking := some .adjacency }
  else if value = "parity" then .ok { g with tracking := some .parity }
  else .error .invalidValue

/-- Codes are parted by commas. Empty ones are kept, to be refused as rules. -/
def addOnly (g : Given) (value : String) : Given :=
  { g with only := g.only ++ (value.toList.splitOn ',').map String.ofList }

def setText (g : Given) : Except UsageError Given :=
  if g.text then .error .repeatedOption else .ok { g with text := true }

def setJson (g : Given) : Except UsageError Given :=
  if g.json then .error .repeatedOption else .ok { g with json := true }

def finish (g : Given) : Except UsageError Command :=
  if g.text && g.json then .error .conflict
  else .ok {
    input := g.file.getD defaultInput
    output := if g.text then .text else if g.json then .json else .summary
    tracking := g.tracking.getD .adjacency
    only := g.only }

end Given

/-- What an option does. -/
inductive Meaning where
  | answer (request : Request)
  | switch (set : Given → Except UsageError Given)
  | valued (add : Given → String → Except UsageError Given)

def options : List (String × Meaning) :=
  [("--version", .answer .version),
   ("--help", .answer .help),
   ("--stdout", .switch Given.setText),
   ("--json", .switch Given.setJson),
   ("--fence-tracking", .valued Given.addTracking),
   ("--only", .valued fun g value => .ok (g.addOnly value))]

/-- What an argument looks like. -/
inductive Form where
  /-- Two hyphens alone. -/
  | endOfOptions
  /-- A name that two hyphens start, with the value after its equals sign if there is one. -/
  | option (name : String) (joined : Option String)
  /-- A hyphen and letters, of which the first decides. -/
  | letter (c : Char)
  /-- Two hyphens before what is no text. -/
  | broken
  /-- Anything else, a lone hyphen too. -/
  | file
  deriving DecidableEq

def Form.ofText (argument : String) : Form :=
  match argument.toList with
  | ['-', '-'] => .endOfOptions
  | '-' :: '-' :: rest =>
    let name := String.ofList ('-' :: '-' :: rest.takeWhile (· != '='))
    match rest.dropWhile (· != '=') with
    | [] => .option name none
    | _ :: value => .option name (some (String.ofList value))
  | '-' :: c :: _ => .letter c
  | _ => .file

/-- A file need not be a text, and anything can stand behind a letter. -/
def formOf (argument : RawText) : Form :=
  match argument.text? with
  | some text => .ofText text
  | none =>
    match Form.ofText argument.display with
    | .letter c => .letter c
    | .file => .file
    | _ => .broken

/-- Reads arguments of which all are files. -/
def readFiles (g : Given) : List RawText → Except UsageError Request
  | [] => Request.tidy <$> g.finish
  | argument :: rest => do readFiles (← g.addFile argument) rest

/-- Reads arguments from left to right. The first that asks for the version or for help, or that
is refused, decides. The value of an option is a text. It is joined to the option, or is the next
argument if that is no option itself. -/
def readFrom (g : Given) : List RawText → Except UsageError Request
  | [] => Request.tidy <$> g.finish
  | argument :: rest =>
    match formOf argument with
    | .endOfOptions => readFiles g rest
    | .file => do readFrom (← g.addFile argument) rest
    | .letter 'V' => .ok .version
    | .letter 'h' => .ok .help
    | .letter _ => .error .unknownOption
    | .broken => .error .notText
    | .option name joined =>
      match options.lookup name, joined, rest with
      | none, _, _ => .error .unknownOption
      | some (.answer request), none, _ => .ok request
      | some (.switch set), none, rest => do readFrom (← set g) rest
      | some (.valued add), some value, rest => do readFrom (← add g value) rest
      | some (.valued add), none, value :: others =>
        if formOf value = .file then
          match value.text? with
          | some text => do readFrom (← add g text) others
          | none => .error .notText
        else .error .missingValue
      | some (.valued _), none, [] => .error .missingValue
      | some _, some _, _ => .error .unexpectedValue

def read (arguments : List RawText) : Except UsageError Request :=
  readFrom {} arguments

end Arguments
end MarkdownTidy
