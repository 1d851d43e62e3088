import MarkdownTidy.PerRule

namespace MarkdownTidy

/-- Which bare fences are tagged with a language. -/
inductive FenceTracking where
  /-- Every one that a line follows, those that close a block too. -/
  | adjacency
  /-- Those that open a block. -/
  | parity
  deriving DecidableEq

/-- How a document is tidied. -/
structure Settings where
  rules : RuleSet := RuleSet.full
  tracking : FenceTracking := .adjacency
  /-- How many number signs a heading made of a bold title gets. -/
  headingLevel : Nat := 3
  /-- How many rounds may be made while the document still changes. -/
  maxRounds : Nat := 4
  deriving DecidableEq

namespace Settings

def isEnabled (s : Settings) (r : Rule) : Bool :=
  s.rules.get r

/-- The rules that are on, in the order of reports. -/
def enabledRules (s : Settings) : List Rule :=
  s.rules.toList

def withRule (s : Settings) (r : Rule) (on : Bool) : Settings :=
  { s with rules := s.rules.set r on }

/-- Turns on the given rules and turns off all others. -/
def only (s : Settings) (rules : List Rule) : Settings :=
  { s with rules := .ofList rules }

def withTracking (s : Settings) (tracking : FenceTracking) : Settings :=
  { s with tracking }

/-- Headings have the levels 1 to 6; a level outside goes to the nearer end. -/
def withHeadingLevel (s : Settings) (level : Nat) : Settings :=
  { s with headingLevel := max 1 (min level 6) }

def withMaxRounds (s : Settings) (rounds : Nat) : Settings :=
  { s with maxRounds := max 1 rounds }

theorem isEnabled_withRule (s : Settings) (r q : Rule) (on : Bool) :
    (s.withRule r on).isEnabled q = if q = r then on else s.isEnabled q :=
  PerRule.get_set s.rules r q on

theorem isEnabled_only (s : Settings) (rules : List Rule) (r : Rule) :
    (s.only rules).isEnabled r = true ↔ r ∈ rules :=
  RuleSet.get_ofList rules r

theorem mem_enabledRules {s : Settings} {r : Rule} :
    r ∈ s.enabledRules ↔ s.isEnabled r = true := by
  simp [enabledRules, RuleSet.toList, isEnabled, Rule.mem_all]

end Settings
end MarkdownTidy
