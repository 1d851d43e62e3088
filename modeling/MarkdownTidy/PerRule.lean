import MarkdownTidy.Rule

namespace MarkdownTidy

/-- One value for each rule. -/
structure PerRule (α : Type) where
  trailingSpaces : α
  boldHeadings : α
  fenceLanguages : α
  bareUrls : α
  fenceSpacing : α
  listSpacing : α
  deriving DecidableEq

namespace PerRule
variable {α : Type}

def get (v : PerRule α) : Rule → α
  | .trailingSpaces => v.trailingSpaces
  | .boldHeading => v.boldHeadings
  | .fenceLanguage => v.fenceLanguages
  | .bareUrl => v.bareUrls
  | .fenceSpacing => v.fenceSpacing
  | .listSpacing => v.listSpacing

def ofFn (f : Rule → α) : PerRule α where
  trailingSpaces := f .trailingSpaces
  boldHeadings := f .boldHeading
  fenceLanguages := f .fenceLanguage
  bareUrls := f .bareUrl
  fenceSpacing := f .fenceSpacing
  listSpacing := f .listSpacing

@[simp] theorem get_ofFn (f : Rule → α) (r : Rule) : (ofFn f).get r = f r := by
  cases r <;> rfl

@[simp] theorem ofFn_get (v : PerRule α) : ofFn v.get = v := rfl

theorem ext_get {v w : PerRule α} (same : ∀ r, v.get r = w.get r) : v = w := by
  rw [← ofFn_get v, ← ofFn_get w, funext same]

/-- The values with another one for a single rule. -/
def set (v : PerRule α) (r : Rule) (a : α) : PerRule α :=
  ofFn fun q => if q = r then a else v.get q

theorem get_set (v : PerRule α) (r q : Rule) (a : α) :
    (v.set r a).get q = if q = r then a else v.get q :=
  get_ofFn _ q

/-- The rules with their values, in the order of reports. -/
def entries (v : PerRule α) : List (Rule × α) :=
  Rule.all.map fun r => (r, v.get r)

end PerRule

/-- Which rules are on. -/
abbrev RuleSet := PerRule Bool

namespace RuleSet

def full : RuleSet :=
  .ofFn fun _ => true

/-- The rules of a list and no others. -/
def ofList (rules : List Rule) : RuleSet :=
  .ofFn fun r => rules.contains r

/-- The rules that are on, in the order of reports. -/
def toList (s : RuleSet) : List Rule :=
  Rule.all.filter s.get

theorem get_ofList (rules : List Rule) (r : Rule) :
    (ofList rules).get r = true ↔ r ∈ rules := by
  simp [ofList]

end RuleSet

/-- How many fixes were made for each rule. -/
abbrev Counts := PerRule Nat

namespace Counts

instance : Zero Counts := ⟨.ofFn fun _ => 0⟩

instance : Add Counts := ⟨fun a b => .ofFn fun r => a.get r + b.get r⟩

/-- Some fixes for one rule. -/
def single (r : Rule) (n : Nat) : Counts :=
  .ofFn fun q => if q = r then n else 0

def total (c : Counts) : Nat :=
  Rule.all.foldr (fun r n => c.get r + n) 0

/-- The counts of several runs together. -/
def sum (cs : List Counts) : Counts :=
  cs.foldr (· + ·) 0

@[simp] theorem get_zero (r : Rule) : (0 : Counts).get r = 0 :=
  PerRule.get_ofFn _ r

@[simp] theorem get_add (a b : Counts) (r : Rule) : (a + b).get r = a.get r + b.get r :=
  PerRule.get_ofFn _ r

@[simp] theorem get_single (r q : Rule) (n : Nat) :
    (single r n).get q = if q = r then n else 0 :=
  PerRule.get_ofFn _ q

protected theorem add_assoc (a b c : Counts) : a + b + c = a + (b + c) :=
  PerRule.ext_get fun r => by simp [Nat.add_assoc]

protected theorem add_comm (a b : Counts) : a + b = b + a :=
  PerRule.ext_get fun r => by simp [Nat.add_comm]

@[simp] protected theorem zero_add (a : Counts) : 0 + a = a :=
  PerRule.ext_get fun r => by simp

@[simp] protected theorem add_zero (a : Counts) : a + 0 = a :=
  PerRule.ext_get fun r => by simp

theorem total_add (a b : Counts) : (a + b).total = a.total + b.total := by
  simp only [total, Rule.all, List.foldr_cons, List.foldr_nil, get_add]
  omega

theorem total_eq_zero_iff {c : Counts} : c.total = 0 ↔ c = 0 := by
  constructor
  · intro nothing
    refine PerRule.ext_get fun r => ?_
    simp only [total, Rule.all, List.foldr_cons, List.foldr_nil] at nothing
    cases r <;> simp only [get_zero] <;> omega
  · rintro rfl
    rfl

theorem total_single (r : Rule) (n : Nat) : (single r n).total = n := by
  cases r <;> simp [total, Rule.all]

theorem add_eq_zero_iff {a b : Counts} : a + b = 0 ↔ a = 0 ∧ b = 0 := by
  rw [← total_eq_zero_iff, total_add, ← total_eq_zero_iff, ← total_eq_zero_iff]
  omega

end Counts
end MarkdownTidy
