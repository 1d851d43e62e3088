import Mathlib.Logic.Relation
import MarkdownTidy.Proofs.Line.KeptKinds

namespace MarkdownTidy

/-- What a line becomes by edits in some places, one after another. -/
def Settings.Becomes (s : Settings) : Line → Line → Prop :=
  Relation.ReflTransGen fun l l' => ∃ around following, (s.editLine around following l).value = l'

variable {s : Settings} {around : Surroundings} {following : Option Line} {l l' : Line} {r : Rule}
  {edited : Edited} {c : Char}

/-- What every fix keeps of a line, the line never loses. -/
theorem Settings.Becomes.keeps {P : Line → Prop}
    (kept : ∀ {around following m r edited}, P m → LineFix s around following m r edited → P edited.line)
    (becomes : s.Becomes l l') (here : P l) : P l' := by
  induction becomes with
  | refl => exact here
  | tail _ edit ih =>
    obtain ⟨around, following, rfl⟩ := edit
    exact s.editLine_induction (P := fun x => P x.value) ih kept

theorem becomes_editLine (s : Settings) (around : Surroundings) (following : Option Line) (l : Line) :
    s.Becomes l (s.editLine around following l).value :=
  .single ⟨around, following, rfl⟩

theorem becomes_nil (becomes : s.Becomes [] l) : l = [] :=
  becomes.keeps (P := fun m => m = []) (fun empty fix => absurd empty fix.ne_nil) rfl

/-! The carriage return at the end of a line. -/

/-- Whether the line is one that a rule replaces as a whole: a bold title or a bare fence. -/
def Settings.isReplaced (s : Settings) (l : Line) : Bool :=
  s.isEnabled .boldHeading && l.isBoldTitle || s.isEnabled .fenceLanguage && l.isBareFence

/-- The line ends in a carriage return and no rule replaces it. -/
structure Settings.HoldsReturn (s : Settings) (l : Line) : Prop where
  last : l.getLast? = some '\r'
  whole : s.isReplaced l = false

theorem Line.Bracketed.getLast?_eq {out : Line} (wrapped : l.Bracketed out) (last : l.getLast? = some c)
    (space : isSpace c = true) : out.getLast? = some c := by
  obtain ⟨front, inner, outer, back, rfl, rfl, ⟨⟨rest, web⟩, visible⟩, -⟩ := wrapped
  have something : inner ≠ [] := by
    rintro rfl
    exact absurd web (by simp)
  cases back with
  | nil =>
    rw [List.append_nil, List.getLast?_append_of_ne_nil front something] at last
    exact absurd space (by simp [visible c last])
  | cons d others =>
    have some : d :: others ≠ [] := List.cons_ne_nil d others
    have parts : front ++ '<' :: (outer ++ '>' :: d :: others) =
        (front ++ '<' :: outer ++ ['>']) ++ d :: others := by simp
    rw [List.getLast?_append_of_ne_nil _ some] at last
    rw [parts, List.getLast?_append_of_ne_nil _ some, last]

theorem LineFix.holdsReturn (holds : s.HoldsReturn l) (fix : LineFix s around following l r edited) :
    s.HoldsReturn edited.line := by
  have whole := holds.whole
  rw [Settings.isReplaced, Bool.or_eq_false_iff, Bool.and_eq_false_imp, Bool.and_eq_false_imp] at whole
  cases fix with
  | strip _ stray =>
    have last := holds.last.symm.trans (Line.getLast?_of_endsInOneSpace stray)
    contradiction
  | promote on _ bold => exact Bool.noConfusion ((whole.1 on).symm.trans bold)
  | tag on _ bare => exact Bool.noConfusion ((whole.2 on).symm.trans bare)
  | wrap _ found =>
    have wrapped := Line.wrapUrls_bracketed found
    refine ⟨wrapped.getLast?_eq holds.last rfl, ?_⟩
    rw [Settings.isReplaced, wrapped.isBareFence_eq_false, Bool.and_false, Bool.or_false, Bool.and_eq_false_imp]
    intro on
    rw [← Bool.not_eq_true]
    intro bold
    exact Bool.noConfusion ((whole.1 on).symm.trans (wrapped.isBoldTitle_of_out bold))

/-! List items. -/

/-- Whether the line holds the sign of a bullet and nothing else, so that it is an item only as long as
there is white space behind the sign. -/
def Line.isLoneBullet (l : Line) : Bool :=
  match l.trim with
  | [sign] => isBulletSign sign
  | _ => false

/-- The line is a list item, and does not cease to be one when its stray space is stripped. -/
structure Settings.IsLastingItem (s : Settings) (l : Line) : Prop where
  item : l.isListItem = true
  lasts : s.isEnabled .trailingSpaces = true → l.endsInOneSpace = true → l.isLoneBullet = false

namespace Line

theorem startsWithBullet_iff {t : Text} :
    startsWithBullet t = true ↔
      ∃ sign gap rest, t = sign :: gap :: rest ∧ isBulletSign sign = true ∧ isSpace gap = true := by
  constructor
  · intro bullet
    unfold startsWithBullet at bullet
    split at bullet
    · rename_i sign gap rest
      exact ⟨sign, gap, rest, rfl, Bool.and_eq_true_iff.mp bullet⟩
    · contradiction
  · rintro ⟨sign, gap, rest, rfl, both⟩
    exact Bool.and_eq_true_iff.mpr both

theorem startsWithNumber_iff {t : Text} :
    startsWithNumber t = true ↔
      ∃ digits rest, t = digits ++ '.' :: rest ∧ digits ≠ [] ∧ ∀ d ∈ digits, isDecimalDigit d = true := by
  constructor
  · intro number
    simp only [startsWithNumber, Bool.and_eq_true, beq_iff_eq] at number
    obtain ⟨first, stop⟩ := number
    obtain ⟨rest, shape⟩ := List.head?_eq_some_iff.mp stop
    refine ⟨t.takeWhile isDecimalDigit, rest, ?_, ?_, fun d => List.mem_takeWhile_imp⟩
    · rw [← shape, List.takeWhile_append_dropWhile]
    · cases t with
      | nil => contradiction
      | cons d others =>
        rw [List.takeWhile_cons_of_pos (by simpa using first)]
        exact List.cons_ne_nil _ _
  · rintro ⟨digits, rest, rfl, some, all⟩
    obtain ⟨d, others, rfl⟩ := List.exists_cons_of_ne_nil some
    have first := all d List.mem_cons_self
    rw [startsWithNumber, List.dropWhile_append_of_pos all, List.dropWhile_cons_of_neg (by decide)]
    simp [first]

/-- An item other than a lone bullet is one without the white space at its end too. -/
theorem isListItem_trimEnd (item : l.isListItem = true) (more : l.isLoneBullet = false) :
    isListItem l.trimEnd = true := by
  obtain ⟨tail, whole, spaces⟩ := Text.dropEndWhile_split isSpace l.trimStart
  change l.trim ++ tail = l.trimStart at whole
  rw [isListItem, ← whole, Bool.or_eq_true] at item
  rw [isListItem, Text.trimStart_trimEnd, Bool.or_eq_true]
  rcases item with bullet | number
  · refine Or.inl (startsWithBullet_iff.mpr ?_)
    obtain ⟨sign, gap, rest, parts, isSign, isGap⟩ := startsWithBullet_iff.mp bullet
    cases trimmed : l.trim with
    | nil =>
      rw [trimmed, List.nil_append] at parts
      have space := spaces sign (parts ▸ List.mem_cons_self)
      exact Bool.noConfusion (space.symm.trans (isSpace_of_isBulletSign isSign))
    | cons first others =>
      rw [trimmed] at parts
      obtain ⟨rfl, later⟩ := List.cons.inj parts
      cases others with
      | nil =>
        rw [isLoneBullet, trimmed] at more
        exact Bool.noConfusion (more.symm.trans isSign)
      | cons second others =>
        obtain ⟨rfl, -⟩ := List.cons.inj later
        exact ⟨first, second, others, rfl, isSign, isGap⟩
  · refine Or.inr (startsWithNumber_iff.mpr ?_)
    obtain ⟨digits, rest, parts, some, all⟩ := startsWithNumber_iff.mp number
    have absent : '.' ∉ tail := fun stop => absurd (spaces '.' stop) (by decide)
    obtain ⟨middle, trimmed, -⟩ := Text.cut_append absent parts
    exact ⟨digits, middle, trimmed, some, all⟩

theorem isLoneBullet_eq_false (member : c ∈ l) (visible : isSpace c = false) (other : isBulletSign c = false) :
    l.isLoneBullet = false := by
  have inside := Text.mem_trim member visible
  unfold isLoneBullet
  split
  · rename_i sign alone
    rw [alone, List.mem_singleton] at inside
    exact inside ▸ other
  · rfl

end Line

theorem LineFix.isLastingItem (lasting : s.IsLastingItem l) (fix : LineFix s around following l r edited) :
    s.IsLastingItem edited.line := by
  cases fix with
  | strip on stray =>
    refine ⟨Line.isListItem_trimEnd lasting.item (lasting.lasts on stray), fun _ again => ?_⟩
    exact Bool.noConfusion ((Line.endsInOneSpace_trimEnd l).symm.trans again)
  | promote _ _ bold =>
    have noItem := congrArg Line.Kind.item (Line.kind_of_isBoldTitle bold)
    exact Bool.noConfusion (lasting.item.symm.trans noItem)
  | tag _ _ bare =>
    have noMarker := Line.isFenceMarker_of_item_or_blank (Or.inl lasting.item)
    exact Bool.noConfusion (noMarker.symm.trans (Line.isFenceMarker_of_isBareFence bare))
  | wrap _ found =>
    have wrapped := Line.wrapUrls_bracketed found
    have item := congrArg Line.Kind.item wrapped.kind_eq
    refine ⟨item.trans lasting.item, fun _ _ => ?_⟩
    obtain ⟨front, rest, rest', -, shape⟩ := wrapped.common_front
    have opening : '<' ∈ edited.line := by
      rw [shape]
      exact List.mem_append_right front List.mem_cons_self
    exact Line.isLoneBullet_eq_false opening rfl rfl

end MarkdownTidy
