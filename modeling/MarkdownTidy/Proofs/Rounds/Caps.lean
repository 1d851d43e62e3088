import Mathlib.Algebra.Ring.Nat
import Mathlib.Logic.Function.Iterate
import MarkdownTidy.Proofs.Rounds.TextRounds

namespace MarkdownTidy

/-- The number of a round and its fixes, if the record tells of a round. -/
def Log.Record.round? : Log.Record → Option (Nat × Nat)
  | .round number fixes => some (number, fixes)
  | _ => none

/-- What the log tells of the rounds of a run, from the first to the last. -/
def Settled.loggedRounds (settled : Settled) : List (Nat × Nat) :=
  settled.log.filterMap Log.Record.round?

/-- The settings with another cap on the number of rounds. -/
def Settings.capped (s : Settings) (n : Nat) : Settings :=
  { s with maxRounds := n }

variable {s : Settings} {text : String}

theorem total_sum (cs : List Counts) : (Counts.sum cs).total = (cs.map Counts.total).sum := by
  induction cs with
  | nil => rfl
  | cons c cs ih =>
    change (c + Counts.sum cs).total = _
    rw [Counts.total_add, ih, List.map_cons, List.sum_cons]

/-! The cap decides when to stop, and nothing else. -/

theorem editFrom_capped (s : Settings) (n : Nat) (around : Surroundings) (d : List Line) :
    (s.capped n).editFrom around d = s.editFrom around d := by
  induction d generalizing around with
  | nil => rfl
  | cons l rest ih =>
    have here : (s.capped n).editLine around rest.head? l = s.editLine around rest.head? l := rfl
    rw [editFrom_cons, editFrom_cons, here, ih]

theorem round_capped (s : Settings) (n : Nat) (d : Document) : (s.capped n).round d = s.round d := by
  have edits : (s.capped n).editLines d = s.editLines d := editFrom_capped s n {} d
  refine Counted.ext_parts ?_ ?_
  · rw [round_value, round_value, edits]
    rfl
  · rw [round_counts, round_counts, edits]
    rfl

theorem rounds_capped (s : Settings) (cap n : Nat) (text : String) :
    (s.capped cap).rounds n text = s.rounds n text := by
  induction n generalizing text with
  | zero => rfl
  | succ n ih =>
    have first : (s.capped cap).roundText text = s.roundText text := by
      rw [Settings.roundText, Settings.roundText, round_capped]
    rw [Settings.rounds, Settings.rounds, first]
    exact Counted.bind_congr_value (ih _)

theorem rounds_value_eq_iterate (s : Settings) (n : Nat) (text : String) :
    (s.rounds n text).value = (fun t => (s.roundText t).value)^[n] text := by
  induction n generalizing text with
  | zero => rfl
  | succ n ih =>
    rw [Settings.rounds, Counted.bind_value, ih, Function.iterate_succ_apply]

theorem tidy_capped {n : Nat} (some : 1 ≤ n) (s : Settings) (text : String) :
    (s.capped n).tidy text = ⟨(s.rounds n text).value, (s.rounds n text).counts⟩ := by
  have cap : max 1 (s.capped n).maxRounds = n := max_eq_right some
  rw [tidy_eq_rounds, cap, rounds_capped]

/-! The rounds that are kept. -/

theorem length_settle_rounds (s : Settings) (limit : Nat) (d : Document) :
    (s.settle limit d).rounds.length ≤ limit := by
  induction limit generalizing d with
  | zero => exact le_rfl
  | succ limit ih =>
    rw [Settings.settle]
    dsimp only
    split
    · exact Nat.zero_le _
    · exact Nat.succ_le_succ (ih _)

theorem settle_rounds_pos (s : Settings) (limit : Nat) (d : Document) :
    ∀ counts ∈ (s.settle limit d).rounds, 0 < counts.total := by
  induction limit generalizing d with
  | zero => exact List.forall_mem_nil _
  | succ limit ih =>
    rw [Settings.settle]
    dsimp only
    split
    · exact List.forall_mem_nil _
    · rename_i changed
      refine List.forall_mem_cons.mpr ⟨?_, ih _⟩
      rw [Nat.pos_iff_ne_zero, Ne, Counts.total_eq_zero_iff, round_counts_eq_zero_iff]
      exact changed

theorem loggedRounds_eq (settled : Settled) :
    settled.loggedRounds = (settled.rounds.zipIdx 1).map fun (counts, number) => (number, counts.total) := by
  have rules : (Log.ofCounts settled.counts).filterMap Log.Record.round? = [] := by
    rw [Log.ofCounts, List.filterMap_map]
    exact List.filterMap_eq_nil_iff.mpr fun _ _ => rfl
  rw [Settled.loggedRounds, Settled.log, List.filterMap_append, rules, List.append_nil, Log.ofRounds,
    List.filterMap_map]
  exact congrFun List.filterMap_eq_map' _

theorem loggedRounds_fixes (settled : Settled) :
    settled.loggedRounds.map Prod.snd = settled.rounds.map Counts.total := by
  rw [loggedRounds_eq, List.map_map]
  conv_rhs => rw [← List.zipIdx_map_fst 1 settled.rounds, List.map_map]
  rfl

theorem length_loggedRounds (settled : Settled) : settled.loggedRounds.length = settled.rounds.length := by
  rw [loggedRounds_eq, List.length_map, List.length_zipIdx]

theorem loggedRounds_numbers (settled : Settled) :
    settled.loggedRounds.map Prod.fst = List.range' 1 settled.loggedRounds.length := by
  rw [length_loggedRounds, loggedRounds_eq, List.map_map, ← List.zipIdx_map_snd]
  rfl

/-- Caps add up: to tidy with one cap and then with another is to tidy once with their sum, and to make as
many rounds as that. In the log the rounds are numbered from one, none is without a fix, there are no more
of them than the cap allows, and their fixes are all the fixes of the run. -/
theorem caps_compose (s : Settings) (text : String) :
    (∀ m n, 1 ≤ m → 1 ≤ n →
      let first := (s.capped m).tidy text
      let later := (s.capped n).tidy first.content
      (s.capped (m + n)).tidy text = ⟨later.content, first.counts + later.counts⟩ ∧
        later.content = (fun t => (s.roundText t).value)^[m + n] text) ∧
      let logged := (s.settleText text).loggedRounds
      logged.map Prod.fst = List.range' 1 logged.length ∧ logged.length ≤ max 1 s.maxRounds ∧
        (∀ round ∈ logged, 0 < round.2) ∧ (logged.map Prod.snd).sum = (s.tidy text).counts.total := by
  constructor
  · intro m n some more first later
    have whole : (s.rounds m text >>= s.rounds n) = s.rounds (m + n) text := (rounds_add s m n text).symm
    have firstEq : first = ⟨(s.rounds m text).value, (s.rounds m text).counts⟩ := tidy_capped some s text
    have laterEq : later = _ := tidy_capped more s first.content
    rw [tidy_capped (some.trans (Nat.le_add_right m n)), ← rounds_value_eq_iterate, laterEq, firstEq, ← whole]
    exact ⟨rfl, rfl⟩
  · intro logged
    have fixes : logged.map Prod.snd = _ := loggedRounds_fixes (s.settleText text)
    refine ⟨loggedRounds_numbers _, ?_, fun round member => ?_, ?_⟩
    · exact (length_loggedRounds _).trans_le (length_settle_rounds s _ _)
    · have counted : round.2 ∈ logged.map Prod.snd := List.mem_map_of_mem member
      rw [fixes] at counted
      obtain ⟨counts, kept, same⟩ := List.mem_map.mp counted
      exact same ▸ settle_rounds_pos s _ _ counts kept
    · rw [fixes, ← total_sum]
      rfl

theorem caps_compose_after_a_single_round :
    (1 ≤ 1 ∧ 1 ≤ 2 ∧ ((Settings.capped {} 1).tidy "- a\n**b :**").content = "- a\n\n**b :**") ∧
      (Settings.capped {} (1 + 2)).tidy "- a\n**b :**" =
        ⟨"- a\n\n### b", .ofFn fun r => if r = .fenceLanguage ∨ r = .bareUrl ∨ r = .fenceSpacing then 0 else 1⟩ := by
  refine ⟨by decide +kernel, ?_⟩
  rw [((caps_compose {} _).1 1 2 (by decide) (by decide)).1]
  decide +kernel

end MarkdownTidy
