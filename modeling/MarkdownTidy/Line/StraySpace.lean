import MarkdownTidy.Line.Edit

namespace MarkdownTidy.Line

/-- Whether the line ends in exactly one space. Two or more are a hard line break. -/
def endsInOneSpace (l : Line) : Bool :=
  match l.reverse with
  | ' ' :: ' ' :: _ => false
  | ' ' :: _ => true
  | _ => false

/-- Takes a stray space from the end of a line, with all white space before it. -/
def stripStraySpace : Edit := fun l =>
  if l.endsInOneSpace then some { line := l.trimEnd } else none

end MarkdownTidy.Line
