import MarkdownTidy.Text.WhiteSpace

namespace MarkdownTidy

/-- A line of a document, without its line break. A carriage return before the break is part of
the line. -/
abbrev Line := Text

/-- A document is the list of its lines; a text has at least one. -/
abbrev Document := List Line

namespace Document

/-- The lines of a text, which line feeds separate. -/
def ofText (t : Text) : Document :=
  t.splitOn '\n'

/-- The text that has the given lines. -/
def toText (d : Document) : Text :=
  ['\n'].intercalate d

theorem toText_ofText (t : Text) : (ofText t).toText = t :=
  List.intercalate_splitOn '\n'

theorem ofText_toText {d : Document} (unbroken : ∀ line ∈ d, '\n' ∉ line) (nonempty : d ≠ []) :
    ofText d.toText = d :=
  List.splitOn_intercalate '\n' unbroken nonempty

theorem ofText_ne_nil (t : Text) : ofText t ≠ [] :=
  List.splitOn_ne_nil '\n' t

end Document
end MarkdownTidy
