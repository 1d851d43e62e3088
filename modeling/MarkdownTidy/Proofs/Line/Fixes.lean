import MarkdownTidy.Document.Editing
import MarkdownTidy.Proofs.Line.WrappedUrls

namespace MarkdownTidy

/-- What an enabled rule does to a line in its surroundings. -/
inductive LineFix (s : Settings) (around : Surroundings) (following : Option Line) (l : Line) :
    Rule → Edited → Prop
  | strip (on : s.isEnabled .trailingSpaces = true) (stray : l.endsInOneSpace = true) :
      LineFix s around following l .trailingSpaces { line := l.trimEnd }
  | promote (on : s.isEnabled .boldHeading = true) (afterBlank : around.afterBlank = true)
      (bold : l.isBoldTitle = true) :
      LineFix s around following l .boldHeading { line := Line.heading s.headingLevel l.titleText }
  | tag (on : s.isEnabled .fenceLanguage = true) (tags : s.tracking.tags around = true)
      (bare : l.isBareFence = true) {next : Line} (follows : following = some next) :
      LineFix s around following l .fenceLanguage { line := Line.taggedFence (.infer next) }
  | wrap (on : s.isEnabled .bareUrl = true) {edited : Edited} (found : l.wrapUrls = some edited) :
      LineFix s around following l .bareUrl edited

variable {s : Settings} {around : Surroundings} {following : Option Line} {l : Line} {r : Rule}

/-- The edits of a line are what its rules do to it. -/
theorem lineFix_iff {edit : Edit} {edited : Edited} (member : (r, edit) ∈ s.lineEdits around following) :
    LineFix s around following l r edited ↔ Edit.onlyIf (s.isEnabled r) edit l = some edited := by
  simp only [Settings.lineEdits, List.mem_cons, Prod.mk.injEq, List.not_mem_nil, or_false] at member
  unfold Edit.onlyIf
  constructor
  · intro fix
    cases fix with
    | strip on stray =>
      obtain rfl : edit = Line.stripStraySpace := by simpa using member
      simp [on, Line.stripStraySpace, stray]
    | promote on afterBlank bold =>
      obtain rfl : edit = .onlyIf around.afterBlank (Line.promoteTitle s.headingLevel) := by
        simpa using member
      simp [on, Edit.onlyIf, afterBlank, Line.promoteTitle, bold]
    | tag on tags bare follows =>
      obtain rfl : edit = .onlyIf (s.tracking.tags around) (Line.tagFence following) := by
        simpa using member
      simp [on, Edit.onlyIf, tags, Line.tagFence, bare, follows]
    | wrap on found =>
      obtain rfl : edit = Line.wrapUrls := by simpa using member
      simp [on, found]
  · intro made
    rcases member with ⟨rfl, rfl⟩ | ⟨rfl, rfl⟩ | ⟨rfl, rfl⟩ | ⟨rfl, rfl⟩
    · simp only [Line.stripStraySpace, Option.ite_none_right_eq_some] at made
      obtain ⟨on, stray, same⟩ := made
      cases same
      exact .strip on stray
    · simp only [Edit.onlyIf, Line.promoteTitle, Option.ite_none_right_eq_some] at made
      obtain ⟨on, afterBlank, bold, same⟩ := made
      cases same
      exact .promote on afterBlank bold
    · simp only [Edit.onlyIf, Line.tagFence, Option.ite_none_right_eq_some] at made
      obtain ⟨on, tags, bare, same⟩ := made
      obtain ⟨next, follows, rfl⟩ := Option.map_eq_some_iff.mp same
      exact .tag on tags bare follows
    · simp only [Option.ite_none_right_eq_some] at made
      exact .wrap made.1 made.2

theorem LineFix.fixes_pos {edited : Edited} (fix : LineFix s around following l r edited) :
    0 < edited.fixes := by
  cases fix with
  | strip => exact Nat.one_pos
  | promote => exact Nat.one_pos
  | tag => exact Nat.one_pos
  | wrap on found =>
    obtain ⟨some, -, fixes⟩ := Line.pieces_of_wrapUrls found
    rw [fixes]
    exact Nat.pos_of_ne_zero some

theorem LineFix.ne_nil {edited : Edited} (fix : LineFix s around following l r edited) : l ≠ [] := by
  rintro rfl
  cases fix with
  | strip _ stray => exact Bool.noConfusion stray
  | promote _ _ bold => exact Bool.noConfusion bold
  | tag _ _ bare => exact Bool.noConfusion bare
  | wrap _ found => exact List.not_mem_nil (Line.colon_mem_of_wrapUrls found)

theorem LineFix.unique {edited edited' : Edited} (fix : LineFix s around following l r edited)
    (fix' : LineFix s around following l r edited') : edited = edited' := by
  cases fix with
  | strip =>
    cases fix'
    rfl
  | promote =>
    cases fix'
    rfl
  | tag _ _ _ follows =>
    cases fix' with
    | tag _ _ _ follows' =>
      obtain rfl := Option.some.inj (follows.symm.trans follows')
      rfl
  | wrap _ found =>
    cases fix' with
    | wrap _ found' => exact Option.some.inj (found.symm.trans found')

/-- A rule's turn at a line: it fixes the line, or has nothing to fix in it. -/
inductive Turn (s : Settings) (around : Surroundings) (following : Option Line) (r : Rule) (l : Line) :
    Counted Line → Prop
  | fixed {edited : Edited} (fix : LineFix s around following l r edited) :
      Turn s around following r l ⟨edited.line, .single r edited.fixes⟩
  | rested (rests : ∀ edited, ¬LineFix s around following l r edited) :
      Turn s around following r l (pure l)

theorem turn_apply {edit : Edit} (member : (r, edit) ∈ s.lineEdits around following) (l : Line) :
    Turn s around following r l ((Edit.onlyIf (s.isEnabled r) edit).apply r l) := by
  unfold Edit.apply
  cases made : Edit.onlyIf (s.isEnabled r) edit l with
  | none =>
    refine .rested fun edited fix => ?_
    rw [lineFix_iff member, made] at fix
    contradiction
  | some edited => exact .fixed ((lineFix_iff member).mpr made)

namespace Settings

/-- Four rules take their turns at a line, one after another. -/
theorem editLine_turns (s : Settings) (around : Surroundings) (following : Option Line) (l : Line) :
    ∃ x₁ x₂ x₃ x₄ : Counted Line,
      Turn s around following .trailingSpaces l x₁ ∧ Turn s around following .boldHeading x₁.value x₂ ∧
      Turn s around following .fenceLanguage x₂.value x₃ ∧
      Turn s around following .bareUrl x₃.value x₄ ∧
      s.editLine around following l =
        ⟨x₄.value, x₁.counts + (x₂.counts + (x₃.counts + x₄.counts))⟩ := by
  have first : (Rule.trailingSpaces, Line.stripStraySpace) ∈ s.lineEdits around following := by
    simp [lineEdits]
  have second : (Rule.boldHeading, .onlyIf around.afterBlank (Line.promoteTitle s.headingLevel)) ∈
      s.lineEdits around following := by
    simp [lineEdits]
  have third : (Rule.fenceLanguage, .onlyIf (s.tracking.tags around) (Line.tagFence following)) ∈
      s.lineEdits around following := by
    simp [lineEdits]
  have fourth : (Rule.bareUrl, Line.wrapUrls) ∈ s.lineEdits around following := by
    simp [lineEdits]
  refine ⟨_, _, _, _, turn_apply first l, turn_apply second _, turn_apply third _,
    turn_apply fourth _, ?_⟩
  simp only [editLine, lineEdits, List.foldlM_cons, List.foldlM_nil, bind_pure]
  rfl

end Settings

theorem Turn.preserves {x : Counted Line} (turn : Turn s around following r l x) (c : Counts)
    {P : Counted Line → Prop} (before : P ⟨l, c⟩)
    (fix : ∀ {r edited}, LineFix s around following l r edited →
      P ⟨edited.line, c + .single r edited.fixes⟩) : P ⟨x.value, c + x.counts⟩ := by
  cases turn with
  | fixed made => exact fix made
  | rested => simpa using before

/-- What holds of an untouched line and is kept by every fix holds of the edited line. -/
theorem Settings.editLine_induction {P : Counted Line → Prop} (start : P ⟨l, 0⟩)
    (fix : ∀ {m : Line} {c : Counts} {r : Rule} {edited : Edited}, P ⟨m, c⟩ →
      LineFix s around following m r edited → P ⟨edited.line, c + .single r edited.fixes⟩) :
    P (s.editLine around following l) := by
  obtain ⟨x₁, x₂, x₃, x₄, turn₁, turn₂, turn₃, turn₄, whole⟩ := s.editLine_turns around following l
  have after₁ := turn₁.preserves 0 start (fix start)
  have after₂ := turn₂.preserves _ after₁ (fix after₁)
  have after₃ := turn₃.preserves _ after₂ (fix after₂)
  have after₄ := turn₄.preserves _ after₃ (fix after₃)
  rw [whole]
  simpa only [Counts.zero_add, Counts.add_assoc] using after₄

/-- A rule rests at a line in which it has nothing to fix. -/
def LineRests (s : Settings) (around : Surroundings) (following : Option Line) (r : Rule) (l : Line) :
    Prop :=
  ∀ edited, ¬LineFix s around following l r edited

theorem Turn.rests_before {x : Counted Line} (turn : Turn s around following r l x)
    (none : x.counts = 0) : x.value = l ∧ LineRests s around following r l := by
  cases turn with
  | fixed made =>
    have pos := made.fixes_pos
    rw [← Counts.total_eq_zero_iff, Counts.total_single] at none
    omega
  | rested rests => exact ⟨rfl, rests⟩

theorem Turn.value_eq {x : Counted Line} (turn : Turn s around following r l x)
    (rests : LineRests s around following r l) : x = pure l := by
  cases turn with
  | fixed made => exact absurd made (rests _)
  | rested => rfl

theorem Turn.unique {x y : Counted Line} (turn : Turn s around following r l x) (turn' : Turn s around following r l y) :
    x = y := by
  cases turn with
  | fixed fix =>
    cases turn' with
    | fixed fix' =>
      obtain rfl := fix.unique fix'
      rfl
    | rested rests => exact absurd fix (rests _)
  | rested rests => exact (turn'.value_eq rests).symm

theorem Settings.editLine_eq_pure (rests : ∀ r, LineRests s around following r l) :
    s.editLine around following l = pure l := by
  refine s.editLine_induction (P := fun x => x = pure l) rfl ?_
  intro m c r edited same fix
  obtain ⟨rfl, -⟩ := Counted.mk.inj same
  exact absurd fix (rests r edited)

/-- A line that is edited without a fix is one at which all rules rest. -/
theorem Settings.editLine_counts_eq_zero_iff :
    (s.editLine around following l).counts = 0 ↔ ∀ r, LineRests s around following r l := by
  refine ⟨fun none => ?_, fun rests => by rw [s.editLine_eq_pure rests]; rfl⟩
  obtain ⟨x₁, x₂, x₃, x₄, turn₁, turn₂, turn₃, turn₄, whole⟩ := s.editLine_turns around following l
  rw [whole] at none
  obtain ⟨none₁, none⟩ := Counts.add_eq_zero_iff.mp none
  obtain ⟨none₂, none⟩ := Counts.add_eq_zero_iff.mp none
  obtain ⟨none₃, none₄⟩ := Counts.add_eq_zero_iff.mp none
  obtain ⟨same₁, rests₁⟩ := turn₁.rests_before none₁
  rw [same₁] at turn₂
  obtain ⟨same₂, rests₂⟩ := turn₂.rests_before none₂
  rw [same₂] at turn₃
  obtain ⟨same₃, rests₃⟩ := turn₃.rests_before none₃
  rw [same₃] at turn₄
  obtain ⟨-, rests₄⟩ := turn₄.rests_before none₄
  intro r edited fix
  cases fix with
  | strip on stray => exact rests₁ _ (.strip on stray)
  | promote on afterBlank bold => exact rests₂ _ (.promote on afterBlank bold)
  | tag on tags bare follows => exact rests₃ _ (.tag on tags bare follows)
  | wrap on found => exact rests₄ _ (.wrap on found)

end MarkdownTidy
