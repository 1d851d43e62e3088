import MarkdownTidy.Document.Lines
import MarkdownTidy.Text.DecimalDigit

namespace MarkdownTidy

/-- Three backticks, the one marker that opens and closes fenced code blocks. -/
def fence : Text :=
  "```".toList

namespace Line

def isBlank (l : Line) : Bool :=
  l.all isSpace

/-- Whether the line, its indent dropped, starts with the fence. It opens or closes a block. -/
def isFenceMarker (l : Line) : Bool :=
  fence.isPrefixOf l.trim

/-- Whether the line holds the fence and nothing else, so that it names no language. -/
def isBareFence (l : Line) : Bool :=
  l.trim == fence

def isBulletSign (c : Char) : Bool :=
  c == '-' || c == '*' || c == '+'

/-- A bullet: its sign and one white space character. -/
def startsWithBullet : Text → Bool
  | sign :: gap :: _ => isBulletSign sign && isSpace gap
  | _ => false

/-- An item number: one decimal digit or more and a full stop. -/
def startsWithNumber (t : Text) : Bool :=
  (t.head?.any isDecimalDigit) && (t.dropWhile isDecimalDigit).head? == some '.'

/-- Whether the line starts an item of a bulleted or numbered list, at any indent. -/
def isListItem (l : Line) : Bool :=
  startsWithBullet l.trimStart || startsWithNumber l.trimStart

/-- Whether the line starts as a heading or a thematic break does. A list may run straight
into it. -/
def isHeadingOrBreak (l : Line) : Bool :=
  l.head? == some '#' || "---".toList.isPrefixOf l

/-- White space with at most one colon in it. -/
def isOptionalColon (t : Text) : Bool :=
  match t.trimStart with
  | [] => true
  | c :: rest => c == ':' && rest.all isSpace

/-- Whether the line is one bold title and no more: two asterisks, a title without any, two
asterisks, and then at most a colon. -/
def isBoldTitle : Line → Bool
  | '*' :: '*' :: rest =>
    match rest.span (· != '*') with
    | (_ :: _, '*' :: '*' :: after) => isOptionalColon after
    | _ => false
  | _ => false

end Line
end MarkdownTidy
