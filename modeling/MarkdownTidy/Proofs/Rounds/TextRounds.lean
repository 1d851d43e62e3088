import MarkdownTidy.Proofs.Document.Unbroken
import MarkdownTidy.Tidied

namespace MarkdownTidy
namespace Settings

/-- One round over a text. -/
def roundText (s : Settings) (text : String) : Counted String :=
  let next := s.round (.ofText text.toList)
  ⟨.ofList next.value.toText, next.counts⟩

/-- Rounds over a text, one after another. None is left out. -/
def rounds (s : Settings) : Nat → String → Counted String
  | 0, text => pure text
  | n + 1, text => s.roundText text >>= s.rounds n

end Settings

variable {s : Settings} {text : String}

theorem ofList_toText_ofText (text : String) :
    String.ofList (Document.ofText text.toList).toText = text := by
  rw [Document.toText_ofText, String.ofList_toList]

theorem ofText_roundText (s : Settings) (text : String) :
    Document.ofText (s.roundText text).value.toList = (s.round (.ofText text.toList)).value := by
  have readable := readable_round (s := s) (readable_ofText text.toList)
  rw [Settings.roundText, String.toList_ofList]
  exact Document.ofText_toText readable.unbroken readable.nonempty

theorem roundText_value_eq_iff :
    (s.roundText text).value = text ↔ (s.round (.ofText text.toList)).value = .ofText text.toList := by
  constructor
  · intro same
    rw [← ofText_roundText, same]
  · intro same
    rw [Settings.roundText, same]
    exact ofList_toText_ofText text

theorem roundText_counts_eq_zero_iff :
    (s.roundText text).counts = 0 ↔ (s.roundText text).value = text :=
  round_counts_eq_zero_iff.trans roundText_value_eq_iff.symm

theorem roundText_eq_pure (same : (s.roundText text).value = text) : s.roundText text = pure text :=
  Counted.ext_parts same (roundText_counts_eq_zero_iff.mpr same)

theorem rounds_eq_pure (fixed : s.roundText text = pure text) (n : Nat) :
    s.rounds n text = pure text := by
  induction n with
  | zero => rfl
  | succ n ih => rw [Settings.rounds, fixed, pure_bind, ih]

theorem rounds_add (s : Settings) (m n : Nat) (text : String) :
    s.rounds (m + n) text = s.rounds m text >>= s.rounds n := by
  induction m generalizing text with
  | zero => rw [Nat.zero_add, Settings.rounds, pure_bind]
  | succ m ih =>
    rw [Nat.succ_add, Settings.rounds, Settings.rounds, bind_assoc]
    exact congrArg (s.roundText text >>= ·) (funext ih)

/-- What holds of a round, and of two runs of rounds together if it does of each, holds of all rounds. -/
theorem rounds_induction {P : Document → Counts → Document → Prop} (none : ∀ d, P d 0 d)
    (one : ∀ d, P d (s.round d).counts (s.round d).value)
    (both : ∀ {d₁ d₂ d₃ c c'}, P d₁ c d₂ → P d₂ c' d₃ → P d₁ (c + c') d₃) (n : Nat) (text : String) :
    P (.ofText text.toList) (s.rounds n text).counts (.ofText (s.rounds n text).value.toList) := by
  induction n generalizing text with
  | zero => exact none _
  | succ n ih =>
    have first := one (.ofText text.toList)
    rw [← ofText_roundText] at first
    exact both first (ih (s.roundText text).value)

theorem rounds_burden (s : Settings) (n : Nat) (text : String) :
    (Document.ofText (s.rounds n text).value.toList).burden + (s.rounds n text).counts.total ≤
      (Document.ofText text.toList).burden := by
  refine rounds_induction (P := fun d c d' => d'.burden + c.total ≤ d.burden) ?_ (round_burden s) ?_ n text
  · exact fun d => (Int.add_zero _).le
  · intro d₁ d₂ d₃ c c' first later
    rw [Counts.total_add]
    omega

/-- The fixes of many rounds do not cancel out either. -/
theorem rounds_counts_eq_zero_iff (n : Nat) :
    (s.rounds n text).counts = 0 ↔ (s.rounds n text).value = text := by
  constructor
  · intro none
    cases n with
    | zero => rfl
    | succ n =>
      have first := (Counts.add_eq_zero_iff.mp none).1
      rw [rounds_eq_pure (roundText_eq_pure (roundText_counts_eq_zero_iff.mp first))]
      rfl
  · intro same
    have less := rounds_burden s n text
    rw [same] at less
    rw [← Counts.total_eq_zero_iff]
    omega

/-- Nothing is lost by stopping at the first round that changes nothing. -/
theorem settle_tidied (s : Settings) (n : Nat) (text : String) :
    (s.settle n (.ofText text.toList)).tidied =
      ⟨(s.rounds n text).value, (s.rounds n text).counts⟩ := by
  induction n generalizing text with
  | zero => exact congrArg (Tidied.mk · 0) (ofList_toText_ofText text)
  | succ n ih =>
    rw [Settings.settle]
    dsimp only
    split
    · rename_i same
      rw [rounds_eq_pure (roundText_eq_pure (roundText_value_eq_iff.mpr same))]
      exact congrArg (Tidied.mk · 0) (ofList_toText_ofText text)
    · have later := ih (s.roundText text).value
      rw [ofText_roundText] at later
      obtain ⟨content, counts⟩ := Tidied.mk.inj later
      exact congr (congrArg Tidied.mk content)
        (congrArg ((s.round (.ofText text.toList)).counts + ·) counts)

theorem tidy_eq_rounds (s : Settings) (text : String) :
    s.tidy text = ⟨(s.rounds (max 1 s.maxRounds) text).value,
      (s.rounds (max 1 s.maxRounds) text).counts⟩ :=
  settle_tidied s _ text

end MarkdownTidy
