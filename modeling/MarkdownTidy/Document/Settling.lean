import MarkdownTidy.Document.BlankLines
import MarkdownTidy.Document.Editing

namespace MarkdownTidy

/-- A document that was tidied in rounds, with the fixes of each round that changed it. -/
structure Settled where
  document : Document
  rounds : List Counts
  deriving DecidableEq

/-- The fixes of all rounds. -/
def Settled.counts (s : Settled) : Counts :=
  Counts.sum s.rounds

namespace Settings

/-- One round: the lines are edited, and then blank lines go in around blocks. -/
def round (s : Settings) (d : Document) : Counted Document :=
  s.editLines d >>= s.spaceOut

/-- Makes rounds until one changes nothing, but no more than `limit`. A round that changes
nothing is not kept. -/
def settle (s : Settings) : (limit : Nat) → Document → Settled
  | 0, d => ⟨d, []⟩
  | limit + 1, d =>
    let next := s.round d
    if next.value = d then ⟨d, []⟩
    else
      let later := s.settle limit next.value
      ⟨later.document, next.counts :: later.rounds⟩

end Settings
end MarkdownTidy
