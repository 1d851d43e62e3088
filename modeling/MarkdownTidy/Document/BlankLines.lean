import MarkdownTidy.Counted
import MarkdownTidy.Document.Block
import MarkdownTidy.Settings

namespace MarkdownTidy

namespace Block

/-- The rule that wants blank lines around a block. -/
def spacingRule? : Block → Option Rule
  | plain _ => none
  | fenced _ _ => some .fenceSpacing
  | list _ _ => some .listSpacing

/-- Whether a block must be kept apart from a line right before it. A list need not be kept
apart from an item. -/
def partsFromBefore (b : Block) (before : Line) : Bool :=
  match b with
  | plain _ => false
  | fenced _ _ => !before.isBlank
  | list _ _ => !before.isBlank && !before.isListItem

/-- Whether a block must be kept apart from a line right after it. A list need not be kept
apart from a heading or a thematic break. -/
def partsFromAfter (b : Block) (after : Line) : Bool :=
  match b with
  | plain _ => false
  | fenced _ _ => !after.isBlank
  | list _ _ => !after.isBlank && !after.isHeadingOrBreak

end Block

namespace Settings

/-- The blank line that stands in for a gap, if the gap is wanted and the block's rule is on. -/
def gap (s : Settings) (b : Block) (wanted : Bool) : Counted (List Line) :=
  match b.spacingRule? with
  | some r => if wanted && s.isEnabled r then ⟨[[]], .single r 1⟩ else pure []
  | none => pure []

/-- Lays out blocks below the line `before` with blank lines around those that want them. -/
def layOut (s : Settings) (before : Option Line) : List Block → Counted (List Line)
  | [] => pure []
  | b :: rest => do
    let above ← s.gap b (before.any b.partsFromBefore)
    let below ← s.gap b ((rest.head?.map Block.firstLine).any b.partsFromAfter)
    let laid := above ++ b.lines ++ below
    let others ← s.layOut laid.getLast? rest
    pure (laid ++ others)

/-- Inserts blank lines around fenced blocks and lists. -/
def spaceOut (s : Settings) (d : Document) : Counted Document :=
  s.layOut none (Block.ofLines (s.isEnabled .listSpacing) d)

end Settings
end MarkdownTidy
