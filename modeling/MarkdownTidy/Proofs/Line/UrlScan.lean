import MarkdownTidy.Proofs.Line.UrlPattern
import MarkdownTidy.Proofs.Text.ByteOffsets

namespace MarkdownTidy

open String (utf8Len)

namespace Url

/-- What may be a bare URL, as a pattern: `https?://[^\s)>]+`. The characters around it are not looked at. -/
def candidate : Pattern :=
  .seq (.text "http".toList) <| .seq (.maybe (.text "s".toList)) <| .seq (.text "://".toList) <|
    .seq (.one isBodyChar) (.many isBodyChar)

/-- The number of bytes of the scheme that a candidate starts with. -/
def schemeLength (t : Text) : Nat :=
  if "https://".toList.isPrefixOf t then utf8Len "https://".toList else utf8Len "http://".toList

/-- Where the bare URL in a candidate ends, if there is one in it. Right after an opening bracket there is none.
Right before a closing one the candidate gives up its last character, as long as its body is not empty then. -/
def acceptedEnd? (l : Line) (found : Pattern.Match) : Except Text.BadOffset (Option Nat) := do
  let front ← l.slice 0 found.start
  if front.getLast?.any isOpener then pure none
  else
    let back ← l.slice found.stop (utf8Len l)
    if back.head?.any isCloser then
      let whole ← l.slice 0 found.stop
      match whole.getLast? with
      | none => pure none
      | some last =>
        let rest ← l.slice found.start (utf8Len l)
        let shortened := found.stop - last.utf8Size
        pure (if found.start + schemeLength rest < shortened then some shortened else none)
    else pure (some found.stop)

/-- A scan of a line for bare URLs. The line is written out up to the byte `copied`, and the search goes on at
the byte `pos`. -/
structure Scan where
  out : Text := []
  copied : Nat := 0
  pos : Nat := 0
  count : Nat := 0
  deriving DecidableEq

namespace Scan

/-- The state after the next candidate, if there is one. An accepted URL is written out in brackets, with all
that is not yet written before it. After a rejected candidate the search goes on one byte behind its start. -/
def turn (l : Line) (s : Scan) : Except Text.BadOffset (Option Scan) := do
  match ← candidate.findAt l s.pos with
  | none => pure none
  | some found =>
    match ← acceptedEnd? l found with
    | some stop =>
      let before ← l.slice s.copied found.start
      let url ← l.slice found.start stop
      pure (some { out := s.out ++ before ++ '<' :: url ++ ['>'], copied := stop, pos := stop, count := s.count + 1 })
    | none => pure (some { s with pos := found.start + 1 })

/-- The states that a scan comes to. -/
inductive Reach (l : Line) : Scan → Prop
  | start : Reach l {}
  | turn {s s' : Scan} (before : Reach l s) (next : s.turn l = .ok (some s')) : Reach l s'

end Scan

variable {before : Option Char} {t u v front middle rest skipped : Text} {l : Line} {c : Char}
  {found : Pattern.Match} {stop : Nat} {s s' : Scan}

/-! What a candidate looks like. -/

theorem take?_candidate :
    candidate.take? before t =
      (schemes.find? fun scheme => scheme.toList.isPrefixOf t).bind fun scheme =>
        let run := (t.drop scheme.toList.length).takeWhile isBodyChar
        if run.isEmpty then none else some (scheme.toList ++ run) := by
  rw [candidate, take?_scheme_seq]
  refine congrArg (Option.bind _) (funext fun scheme => ?_)
  cases t.drop scheme.toList.length with
  | nil => rfl
  | cons c rest =>
    rw [Pattern.take?_one_seq_cons, Pattern.take?_many]
    by_cases inside : isBodyChar c = true
    · rw [if_pos inside, List.takeWhile_cons_of_pos inside]
      rfl
    · rw [if_neg inside, List.takeWhile_cons_of_neg inside]
      rfl

/-- The parts of a candidate with the text behind it. -/
structure IsCandidate (u rest : Text) (scheme : String) (run : Text) : Prop where
  known : (schemes.find? fun scheme => scheme.toList.isPrefixOf (u ++ rest)) = some scheme
  parts : u = scheme.toList ++ run
  nonempty : run ≠ []
  inside : ∀ c ∈ run, isBodyChar c = true
  stops : ∀ c ∈ rest.head?, isBodyChar c = false

theorem isCandidate_of_take? (taken : candidate.take? before (u ++ rest) = some u) :
    ∃ scheme run, IsCandidate u rest scheme run := by
  rw [take?_candidate] at taken
  obtain ⟨scheme, known, run⟩ := Option.bind_eq_some_iff.mp taken
  dsimp only at run
  split at run
  · contradiction
  · rename_i nonempty
    have parts := Option.some.inj run
    have start := List.find?_some known
    obtain ⟨tail, whole⟩ := List.isPrefixOf_iff_prefix.mp start
    rw [← whole, List.drop_left] at parts nonempty
    -- All of the run is taken, so that the rest starts where the run ends.
    have behind : tail.dropWhile isBodyChar = rest := by
      rw [← parts, List.append_assoc, List.append_cancel_left_eq] at whole
      conv_lhs at whole => rw [← List.takeWhile_append_dropWhile (p := isBodyChar) (l := tail)]
      exact List.append_cancel_left whole
    refine ⟨scheme, tail.takeWhile isBodyChar, known, parts.symm, mt List.isEmpty_iff.mpr nonempty, ?_, ?_⟩
    · exact fun c member => List.mem_takeWhile_imp member
    · intro c first
      have stop := List.head?_dropWhile_not isBodyChar tail
      rw [behind, Option.mem_def.mp first] at stop
      exact stop

namespace IsCandidate
variable {scheme : String} {run : Text} (h : IsCandidate u rest scheme run)
include h

theorem drop_scheme : (u ++ rest).drop scheme.toList.length = run ++ rest := by
  rw [h.parts, List.append_assoc, List.drop_left]

theorem body_eq : body (run ++ rest) = if rest.head?.any isCloser then run.dropLast else run := by
  have stop : rest.takeWhile isBodyChar = [] ∧ rest.dropWhile isBodyChar = rest := by
    cases rest with
    | nil => exact ⟨rfl, rfl⟩
    | cons c others =>
      have outside : ¬isBodyChar c = true := by simp [h.stops c rfl]
      exact ⟨List.takeWhile_cons_of_neg outside, List.dropWhile_cons_of_neg outside⟩
  rw [body, List.takeWhile_append_of_pos h.inside, List.dropWhile_append_of_pos h.inside, stop.1, stop.2,
    List.append_nil]

/-- In which cases there is a bare URL in a candidate. -/
theorem read?_eq (before : Option Char) :
    read? before (u ++ rest) =
      if before.any isOpener then none
      else if rest.head?.any isCloser then
        if run.dropLast.isEmpty then none else some (scheme.toList ++ run.dropLast)
      else some u := by
  rw [read?, h.known]
  dsimp only
  rw [h.drop_scheme, h.body_eq]
  split
  · rfl
  · split
    · rfl
    · rw [if_neg (mt List.isEmpty_iff.mp h.nonempty), h.parts]

theorem schemeLength_eq : schemeLength (u ++ rest) = utf8Len scheme.toList := by
  have known := h.known
  rw [schemes, List.find?_cons] at known
  unfold schemeLength
  split at known
  · rename_i secure
    rw [if_pos secure, Option.some.inj known]
  · rename_i plain
    rw [plain]
    have member := List.mem_of_find?_eq_some known
    rw [List.mem_singleton.mp member]
    rfl

end IsCandidate

theorem read?_of_take?_eq_none (missed : candidate.take? before t = none) : read? before t = none := by
  rw [take?_candidate] at missed
  unfold read?
  split
  · rfl
  · cases known : schemes.find? fun scheme => scheme.toList.isPrefixOf t with
    | none => rfl
    | some scheme =>
      rw [known, Option.bind_some] at missed
      dsimp only at missed ⊢
      split at missed
      · rename_i none
        rw [body, List.isEmpty_iff.mp none]
        exact if_pos (by split <;> rfl)
      · contradiction

/-- What is accepted of a candidate is the bare URL that is read at its start. -/
theorem acceptedEnd?_eq (taken : candidate.take? front.getLast? (u ++ rest) = some u) :
    acceptedEnd? (front ++ (u ++ rest)) ⟨utf8Len front, utf8Len (front ++ u)⟩ =
      .ok ((read? front.getLast? (u ++ rest)).map fun v => utf8Len (front ++ v)) := by
  obtain ⟨scheme, run, h⟩ := isCandidate_of_take? taken
  have before := Text.slice_from_start front (u ++ rest)
  have onward := Text.slice_to_end front (u ++ rest)
  have whole := Text.slice_from_start (front ++ u) rest
  have behind := Text.slice_to_end (front ++ u) rest
  rw [List.append_assoc] at whole behind
  simp only [acceptedEnd?, before, onward, whole, behind, bind, Except.bind, h.read?_eq, h.schemeLength_eq]
  split
  · rfl
  · split
    · obtain ⟨init, last, rfl⟩ : ∃ init last, run = init ++ [last] :=
        ⟨_, _, (List.dropLast_append_getLast h.nonempty).symm⟩
      have ending : (front ++ u).getLast? = some last := by
        rw [h.parts, ← List.append_assoc, ← List.append_assoc, List.getLast?_concat]
      have shortened : utf8Len (front ++ u) - last.utf8Size = utf8Len (front ++ scheme.toList ++ init) := by
        simp only [h.parts, String.utf8Len_append, String.utf8Len_cons, String.utf8Len_nil]
        omega
      rw [ending]
      dsimp only
      rw [shortened, ← String.utf8Len_append, List.dropLast_concat]
      cases init with
      | nil => rw [List.append_nil, if_neg (Nat.lt_irrefl _)]; rfl
      | cons c others =>
        rw [if_pos (Text.utf8Len_lt_append (List.cons_ne_nil c others) _), List.append_assoc]
        rfl
    · rfl

end Url
end MarkdownTidy
