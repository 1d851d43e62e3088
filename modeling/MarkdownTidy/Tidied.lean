import MarkdownTidy.Document.Settling
import MarkdownTidy.Log

namespace MarkdownTidy

/-- A tidied text and the fixes that made it. -/
structure Tidied where
  content : String
  counts : Counts
  deriving DecidableEq

/-- Whether any fix was made. -/
def Tidied.hasChanges (t : Tidied) : Bool :=
  0 < t.counts.total

namespace Settled

def tidied (s : Settled) : Tidied :=
  ⟨String.ofList s.document.toText, s.counts⟩

/-- What the log tells of the rounds, and then of the rules. -/
def log (s : Settled) : List Log.Record :=
  Log.ofRounds s.rounds ++ Log.ofCounts s.counts

end Settled

namespace Settings

/-- Settles the document of a text. One round is made even when the cap is zero. -/
def settleText (s : Settings) (text : String) : Settled :=
  s.settle (max 1 s.maxRounds) (.ofText text.toList)

/-- Tidies a text. -/
def tidy (s : Settings) (text : String) : Tidied :=
  (s.settleText text).tidied

end Settings
end MarkdownTidy
