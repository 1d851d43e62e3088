import MarkdownTidy.Proofs.Line.UrlScan
import MarkdownTidy.Proofs.Line.WrappedUrls

namespace MarkdownTidy

open String (utf8Len)

namespace Url
variable {before : Option Char} {t u v front middle rest skipped : Text} {l : Line} {c : Char} {s s' : Scan}

/-! The parts of a text, found by its candidates. -/

theorem pieces_of_read?_eq_none (missed : read? before (c :: rest) = none) :
    pieces before (c :: rest) = .plain c :: pieces (some c) rest := by
  rw [pieces, missed]

theorem pieces_of_read?_eq_some (read : read? before t = some u) :
    pieces before t = .url u :: pieces u.getLast? (t.drop u.length) := by
  obtain ⟨nonempty, start⟩ := read?_prefix read
  obtain ⟨c, others, rfl⟩ := List.exists_cons_of_ne_nil nonempty
  obtain ⟨back, rfl⟩ := start
  rw [List.cons_append] at read ⊢
  rw [pieces, read]
  rfl

/-- There is no bare URL in what is skipped before a candidate. -/
theorem pieces_skipped (first : candidate.first? before (skipped ++ t) = some (skipped, u)) :
    pieces before (skipped ++ t) = skipped.map .plain ++ pieces (skipped.getLast?.or before) t := by
  induction skipped generalizing before with
  | nil => rfl
  | cons c skipped ih =>
    rw [List.cons_append, Pattern.first?] at first
    split at first
    · cases Option.some.inj first
    · rename_i missed
      obtain ⟨⟨others, w⟩, later, same⟩ := Option.map_eq_some_iff.mp first
      cases same
      rw [List.cons_append, pieces_of_read?_eq_none (read?_of_take?_eq_none missed), ih later,
        Text.getLast?_cons_or, List.map_cons, List.cons_append]

theorem countP_pieces_of_first?_eq_none (none : candidate.first? before t = none) :
    (pieces before t).countP Piece.isUrl = 0 := by
  induction t generalizing before with
  | nil => rw [pieces, List.countP_nil]
  | cons c rest ih =>
    rw [Pattern.first?] at none
    split at none
    · contradiction
    · rename_i missed
      rw [pieces_of_read?_eq_none (read?_of_take?_eq_none missed)]
      exact (List.countP_cons_of_neg (by simp [Piece.isUrl])).trans (ih (Option.map_eq_none_iff.mp none))

theorem candidate_cons (taken : candidate.take? before (u ++ rest) = some u) : ∃ others, u = 'h' :: others := by
  obtain ⟨scheme, run, h⟩ := isCandidate_of_take? taken
  obtain ⟨tail, web⟩ := schemes_web scheme (List.mem_of_find?_eq_some h.known)
  exact ⟨"ttp".toList ++ tail ++ run, by rw [h.parts, ← web]; rfl⟩

namespace Scan

/-- How far a scan is. The line is written out up to `front`, its bare URLs in brackets, and no more of them are
in `middle`. What the rest is to become is not yet known to the scan. -/
structure At (l : Line) (s : Scan) (front middle rest : Text) : Prop where
  line : l = front ++ middle ++ rest
  copied : s.copied = utf8Len front
  pos : s.pos = utf8Len (front ++ middle)
  wrapped : (pieces none l).flatMap Piece.wrapped =
    s.out ++ middle ++ (pieces (front ++ middle).getLast? rest).flatMap Piece.wrapped
  count : (pieces none l).countP Piece.isUrl =
    s.count + (pieces (front ++ middle).getLast? rest).countP Piece.isUrl

theorem at_start (l : Line) : At l {} [] [] l :=
  ⟨rfl, rfl, rfl, rfl, (Nat.zero_add _).symm⟩

namespace At

theorem skip (here : At l s front middle (skipped ++ rest))
    (first : candidate.first? (front ++ middle).getLast? (skipped ++ rest) = some (skipped, u)) :
    At l { s with pos := utf8Len (front ++ (middle ++ skipped)) } front (middle ++ skipped) rest where
  line := by rw [here.line]; simp only [List.append_assoc]
  copied := here.copied
  pos := rfl
  wrapped := by
    have plain : (skipped.map Piece.plain).flatMap Piece.wrapped = skipped := by
      rw [List.flatMap_map]
      exact List.flatMap_singleton' skipped
    rw [here.wrapped, pieces_skipped first, List.flatMap_append, plain, ← List.getLast?_append]
    simp only [List.append_assoc]
  count := by
    have none : (skipped.map Piece.plain).countP Piece.isUrl = 0 := by
      rw [List.countP_map]
      exact List.countP_eq_zero.mpr fun c _ => Bool.false_ne_true
    rw [here.count, pieces_skipped first, List.countP_append, none, ← List.getLast?_append, Nat.zero_add,
      List.append_assoc]

theorem accept (here : At l s front middle (v ++ rest))
    (read : read? (front ++ middle).getLast? (v ++ rest) = some v) :
    At l { out := s.out ++ middle ++ '<' :: v ++ ['>'], copied := utf8Len (front ++ middle ++ v),
           pos := utf8Len (front ++ middle ++ v), count := s.count + 1 } (front ++ middle ++ v) [] rest := by
  obtain ⟨nonempty, -⟩ := read?_prefix read
  have parts := pieces_of_read?_eq_some read
  have last : (front ++ middle ++ v ++ []).getLast? = v.getLast? := by
    rw [List.append_nil, List.getLast?_append_of_ne_nil _ nonempty]
  rw [List.drop_left, ← last] at parts
  refine ⟨?_, rfl, ?_, ?_, ?_⟩
  · rw [here.line]
    simp only [List.append_assoc, List.nil_append]
  · rw [List.append_nil]
  · rw [here.wrapped, parts, List.flatMap_cons]
    simp [Piece.wrapped]
  · rw [here.count, parts, List.countP_cons_of_pos (show Piece.isUrl (.url v) = true from rfl)]
    exact Nat.add_right_comm s.count _ 1

theorem reject (here : At l s front middle (c :: rest))
    (missed : read? (front ++ middle).getLast? (c :: rest) = none) :
    At l { s with pos := utf8Len (front ++ middle) + c.utf8Size } front (middle ++ [c]) rest := by
  have parts := pieces_of_read?_eq_none missed
  have last : (front ++ (middle ++ [c])).getLast? = some c := by
    rw [← List.append_assoc, List.getLast?_concat]
  refine ⟨?_, here.copied, ?_, ?_, ?_⟩
  · rw [here.line]
    simp only [List.append_assoc, List.singleton_append]
  · rw [← List.append_assoc, String.utf8Len_append _ [c], String.utf8Len_cons, String.utf8Len_nil, Nat.zero_add]
  · rw [here.wrapped, parts, List.flatMap_cons, last]
    simp [Piece.wrapped]
  · rw [here.count, parts, last, List.countP_cons_of_neg (by simp [Piece.isUrl])]

/-- A candidate is accepted or rejected, and the scan gets further. Without a candidate it is at its end, and there
are no more bare URLs. -/
theorem turn_cases (here : At l s front middle rest) :
    s.turn l = .ok none ∧ (pieces (front ++ middle).getLast? rest).countP Piece.isUrl = 0 ∨
      ∃ s' front' middle' rest', s.turn l = .ok (some s') ∧ At l s' front' middle' rest' := by
  have search := candidate.findAt_append (front ++ middle) rest
  rw [← here.line, ← here.pos] at search
  cases first : candidate.first? (front ++ middle).getLast? rest with
  | none =>
    rw [first, Option.map_none] at search
    refine Or.inl ⟨?_, countP_pieces_of_first?_eq_none first⟩
    rw [Scan.turn, search]
    rfl
  | some place =>
    obtain ⟨skipped, u⟩ := place
    obtain ⟨back, rfl, taken⟩ := Pattern.first?_eq_some first
    have later := here.skip first
    rw [← List.getLast?_append, List.append_assoc] at taken
    have accepted := acceptedEnd?_eq taken
    rw [← later.line] at accepted
    rw [first, Option.map_some] at search
    dsimp only at search
    rw [List.append_assoc front middle skipped] at search
    right
    cases read : read? (front ++ (middle ++ skipped)).getLast? (u ++ back) with
    | none =>
      rw [read, Option.map_none] at accepted
      obtain ⟨others, rfl⟩ := candidate_cons taken
      refine ⟨_, _, _, _, ?_, later.reject read⟩
      simp only [Scan.turn, search, accepted, bind, Except.bind]
      rfl
    | some v =>
      rw [read, Option.map_some] at accepted
      obtain ⟨-, rest, whole⟩ := read?_prefix read
      rw [← whole] at later read
      have before := Text.slice_parts front (middle ++ skipped) (v ++ rest)
      have url := Text.slice_parts (front ++ (middle ++ skipped)) v rest
      rw [← later.line, ← here.copied] at before
      rw [List.append_assoc, ← later.line] at url
      refine ⟨_, _, _, _, ?_, later.accept read⟩
      simp only [Scan.turn, search, accepted, before, url, bind, Except.bind]
      rfl

end At

/-- A turn moves the search on, also in a state that no scan comes to. -/
theorem turn_pos_lt (next : s.turn l = .ok (some s')) : s.pos < s'.pos ∧ s.pos < utf8Len l := by
  obtain ⟨place, search, next⟩ := Text.bind_eq_ok.mp next
  cases place with
  | none => cases next
  | some found =>
    obtain ⟨front, u, rest, rfl, rfl, reached, taken⟩ := Pattern.findAt_eq_some search
    obtain ⟨end?, accepted, next⟩ := Text.bind_eq_ok.mp next
    obtain rfl := Except.ok.inj ((acceptedEnd?_eq taken).symm.trans accepted)
    obtain ⟨others, rfl⟩ := candidate_cons taken
    have within := Text.utf8Len_lt_append (List.cons_ne_nil 'h' (others ++ rest)) front
    refine ⟨?_, reached.trans_lt within⟩
    cases read : read? front.getLast? ('h' :: others ++ rest) with
    | none =>
      rw [read] at next
      cases next
      exact Nat.lt_succ_of_le reached
    | some v =>
      rw [read] at next
      obtain ⟨_, _, next⟩ := Text.bind_eq_ok.mp next
      obtain ⟨_, _, next⟩ := Text.bind_eq_ok.mp next
      cases next
      obtain ⟨nonempty, -⟩ := read?_prefix read
      exact reached.trans_lt (Text.utf8Len_lt_append nonempty front)

/-- Takes turns until there is no candidate any more. -/
def run (l : Line) (s : Scan) : Except Text.BadOffset Scan :=
  match _ : s.turn l with
  | .error fault => .error fault
  | .ok none => .ok s
  | .ok (some s') => s'.run l
termination_by utf8Len l - s.pos
decreasing_by
  have further := turn_pos_lt ‹s.turn l = .ok (some s')›
  omega

/-- A scan comes to an end, and all bare URLs are found then. -/
theorem At.run (here : At l s front middle rest) (reached : Reach l s) :
    ∃ last front' middle' rest', s.run l = .ok last ∧ Reach l last ∧ last.turn l = .ok none ∧
      At l last front' middle' rest' ∧ (pieces (front' ++ middle').getLast? rest').countP Piece.isUrl = 0 := by
  fun_induction Scan.run l s generalizing front middle rest with
  | case1 s fault failed =>
    rcases here.turn_cases with ⟨stops, -⟩ | ⟨_, _, _, _, next, -⟩
    · cases stops.symm.trans failed
    · cases next.symm.trans failed
  | case2 s stops =>
    rcases here.turn_cases with ⟨-, none⟩ | ⟨_, _, _, _, next, -⟩
    · exact ⟨s, front, middle, rest, rfl, reached, stops, here, none⟩
    · cases next.symm.trans stops
  | case3 s s' next ih =>
    rcases here.turn_cases with ⟨stops, -⟩ | ⟨_, _, _, _, next', there⟩
    · cases stops.symm.trans next
    · cases next'.symm.trans next
      exact ih there (.turn reached next)

theorem Reach.exists_at (reached : Reach l s) : ∃ front middle rest, At l s front middle rest := by
  induction reached with
  | start => exact ⟨[], [], l, at_start l⟩
  | turn _ next ih =>
    obtain ⟨front, middle, rest, here⟩ := ih
    rcases here.turn_cases with ⟨stops, -⟩ | ⟨_, front', middle', rest', next', there⟩
    · cases stops.symm.trans next
    · cases next'.symm.trans next
      exact ⟨front', middle', rest', there⟩

/-- Nothing goes wrong in a state: the search starts in the line, whatever the next turn cuts at is a place
between characters, and the places are in order. So the turn can be taken, and it moves the search on. -/
structure Safe (l : Line) (s : Scan) : Prop where
  pos_le : s.pos ≤ utf8Len l
  pos : l.IsValidOffset s.pos
  copied : l.IsValidOffset s.copied
  found : ∀ found, candidate.findAt l s.pos = .ok (some found) →
    s.copied ≤ found.start ∧ l.IsValidOffset found.start ∧ l.IsValidOffset found.stop ∧
      ∀ stop, acceptedEnd? l found = .ok (some stop) → l.IsValidOffset stop
  turns : ∃ next, s.turn l = .ok next ∧ ∀ s' ∈ next, s.pos < s'.pos

theorem At.safe (here : At l s front middle rest) : s.Safe l where
  pos_le := by
    rw [here.pos, here.line, String.utf8Len_append _ rest]
    exact Nat.le_add_right _ _
  pos := by
    rw [here.pos, here.line]
    exact Text.isValidOffset_append (front ++ middle) rest
  copied := by
    rw [here.copied, here.line, List.append_assoc]
    exact Text.isValidOffset_append front (middle ++ rest)
  found := by
    intro found search
    obtain ⟨before, u, back, whole, rfl, reached, taken⟩ := Pattern.findAt_eq_some search
    refine ⟨?_, ?_, ?_, fun stop accepted => ?_⟩
    · have searched : s.copied ≤ s.pos := by
        rw [here.copied, here.pos, String.utf8Len_append]
        exact Nat.le_add_right _ _
      exact searched.trans reached
    · rw [whole]
      exact Text.isValidOffset_append before (u ++ back)
    · rw [whole, ← List.append_assoc]
      exact Text.isValidOffset_append (before ++ u) back
    · rw [whole, acceptedEnd?_eq taken] at accepted
      obtain ⟨v, read, rfl⟩ := Option.map_eq_some_iff.mp (Except.ok.inj accepted)
      obtain ⟨-, others, parts⟩ := read?_prefix read
      rw [whole, ← parts, ← List.append_assoc]
      exact Text.isValidOffset_append (before ++ v) others
  turns := by
    rcases here.turn_cases with ⟨stops, -⟩ | ⟨s', _, _, _, next, -⟩
    · exact ⟨none, stops, nofun⟩
    · refine ⟨some s', next, ?_⟩
      rintro _ ⟨⟩
      exact (turn_pos_lt next).1

end Scan
end Url

namespace Line

/-- Puts angle brackets around the bare URLs of a line by a scan over its bytes. -/
def scanUrls (l : Line) : Except Text.BadOffset (Option Edited) :=
  if l.isUrlSearched then do
    let last ← Url.Scan.run l {}
    if last.count = 0 then pure none
    else
      let rest ← l.slice last.copied (utf8Len l)
      pure (some { line := last.out ++ rest, fixes := last.count })
  else pure none

/-- The scan over bytes finds the same URLs as the cutting of the line into its parts. -/
theorem scanUrls_eq (l : Line) : l.scanUrls = .ok l.wrapUrls := by
  unfold scanUrls wrapUrls
  split
  · obtain ⟨last, front, middle, rest, ends, -, -, there, none⟩ := (Url.Scan.at_start l).run .start
    have count := there.count
    rw [none, Nat.add_zero] at count
    have left := Text.slice_to_end front (middle ++ rest)
    rw [← List.append_assoc, ← there.line, ← there.copied] at left
    have line := there.wrapped
    rw [flatMap_wrapped_of_plain none, Url.flatMap_text_pieces, List.append_assoc] at line
    simp only [ends, left, bind, Except.bind, count, line]
    split <;> rfl
  · rfl

/-- In every state that a scan of a line for bare URLs comes to, no offset is bad and the next turn moves the
search on. So the scan ends, and it wraps the bare URLs of the line. -/
theorem scans_are_safe (l : Line) :
    (∀ s, Url.Scan.Reach l s → s.Safe l) ∧
      (∃ last, Url.Scan.Reach l last ∧ Url.Scan.run l {} = .ok last ∧ last.turn l = .ok none) ∧
      l.scanUrls = .ok l.wrapUrls := by
  refine ⟨fun s reached => ?_, ?_, scanUrls_eq l⟩
  · obtain ⟨front, middle, rest, here⟩ := reached.exists_at
    exact here.safe
  · obtain ⟨last, _, _, _, ends, reached, stops, -⟩ := (Url.Scan.at_start l).run .start
    exact ⟨last, reached, ends, stops⟩

theorem scans_are_safe_behind_brackets :
    let l : Line := "ü (http://a http://bé)".toList
    let s : Url.Scan := { out := "ü (http://a <http://b>".toList, copied := 21, pos := 21, count := 1 }
    Url.Scan.Reach l s ∧ s.Safe l := by
  intro l s
  have rejected : Url.Scan.turn l {} = .ok (some { pos := 5 }) := by decide +kernel
  have accepted : Url.Scan.turn l { pos := 5 } = .ok (some s) := by decide +kernel
  have reached : Url.Scan.Reach l s := (Url.Scan.Reach.start.turn rejected).turn accepted
  exact ⟨reached, (scans_are_safe l).1 s reached⟩

end Line
end MarkdownTidy
