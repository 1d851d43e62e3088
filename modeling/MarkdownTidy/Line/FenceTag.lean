import MarkdownTidy.Line.Edit
import MarkdownTidy.Line.Language

namespace MarkdownTidy.Line

/-- A fence that names a language. -/
def taggedFence (language : Language) : Line :=
  fence ++ language.tag.toList

/-- Tags a bare fence with the language of the line after it. The last line of a document is
left alone. -/
def tagFence (following : Option Line) : Edit := fun l =>
  if l.isBareFence then
    following.map fun first => { line := taggedFence (Language.infer first) }
  else none

end MarkdownTidy.Line
