import MarkdownTidy.Line.Class
import MarkdownTidy.Line.Edit

namespace MarkdownTidy.Line

/-- The title of a bold line: the asterisks at its two ends go, then the white space at the ends,
then the colons at the end. -/
def titleText (l : Line) : Text :=
  (l.trimWhile (· == '*')).trim.dropEndWhile (· == ':')

/-- A heading with a given title. -/
def heading (level : Nat) (title : Text) : Line :=
  List.replicate level '#' ++ ' ' :: title

/-- Makes a heading of a bold title. -/
def promoteTitle (level : Nat) : Edit := fun l =>
  if l.isBoldTitle then some { line := heading level l.titleText } else none

end MarkdownTidy.Line
