import MarkdownTidy.Line.BareUrl
import MarkdownTidy.Line.BoldTitle
import MarkdownTidy.Line.FenceTag
import MarkdownTidy.Line.StraySpace
import MarkdownTidy.Settings

namespace MarkdownTidy

/-- What the lines before a line say about it. -/
structure Surroundings where
  /-- There is a line before, and it is blank. -/
  afterBlank : Bool := false
  /-- The number of fence markers before is odd. -/
  inFence : Bool := false
  deriving DecidableEq

/-- The surroundings of the line after a given one. -/
def Surroundings.past (before : Surroundings) (l : Line) : Surroundings where
  afterBlank := l.isBlank
  inFence := before.inFence != l.isFenceMarker

/-- Whether a bare fence in these surroundings is tagged. -/
def FenceTracking.tags (tracking : FenceTracking) (around : Surroundings) : Bool :=
  match tracking with
  | .adjacency => true
  | .parity => !around.inFence

namespace Settings

/-- The edits of a line in the order in which they are made, each with its rule. -/
def lineEdits (s : Settings) (around : Surroundings) (following : Option Line) :
    List (Rule × Edit) :=
  [(.trailingSpaces, Line.stripStraySpace),
   (.boldHeading, .onlyIf around.afterBlank (Line.promoteTitle s.headingLevel)),
   (.fenceLanguage, .onlyIf (s.tracking.tags around) (Line.tagFence following)),
   (.bareUrl, Line.wrapUrls)]

/-- Makes the edits of the enabled rules to a line. -/
def editLine (s : Settings) (around : Surroundings) (following : Option Line) (l : Line) :
    Counted Line :=
  (s.lineEdits around following).foldlM
    (fun current (r, edit) => (Edit.onlyIf (s.isEnabled r) edit).apply r current) l

/-- Edits lines in turn. A line sees the one before it as edited and the one after it as it
was. -/
def editFrom (s : Settings) (around : Surroundings) : List Line → Counted (List Line)
  | [] => pure []
  | l :: rest => do
    let edited ← s.editLine around rest.head? l
    let others ← s.editFrom (around.past edited) rest
    pure (edited :: others)

/-- Edits every line of a document. -/
def editLines (s : Settings) (d : Document) : Counted Document :=
  s.editFrom {} d

end Settings
end MarkdownTidy
