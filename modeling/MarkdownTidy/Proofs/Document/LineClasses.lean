import MarkdownTidy.Proofs.Document.LineEdits
import MarkdownTidy.Proofs.Line.Chances
import MarkdownTidy.Proofs.Line.FenceMarkers

namespace MarkdownTidy

namespace Line

/-- The classes of lines that edits and blank lines depend on. Each has a test of its own. -/
inductive Class where
  | blank
  | fenceMarker
  | listItem
  | boldTitle
  | headingOrBreak
  deriving DecidableEq

/-- Whether a line passes the test of a class. -/
def isOf (l : Line) : Class → Bool
  | .blank => l.isBlank
  | .fenceMarker => l.isFenceMarker
  | .listItem => l.isListItem
  | .boldTitle => l.isBoldTitle
  | .headingOrBreak => l.isHeadingOrBreak

/-- The kind of the lines of a class. To the blank line pass a title is a line like any other. -/
def Class.kind : Class → Kind
  | .blank => ⟨true, false, false⟩
  | .fenceMarker => ⟨false, true, false⟩
  | .listItem => ⟨false, false, true⟩
  | .boldTitle => .other
  | .headingOrBreak => .other

variable {l : Line} {a b : Class}

theorem kind_of_isOf (here : l.isOf a = true) : l.kind = a.kind := by
  cases a with
  | blank => exact kind_of_isBlank here
  | fenceMarker => exact kind_of_isFenceMarker here
  | listItem => exact kind_of_isListItem here
  | boldTitle => exact kind_of_isBoldTitle here
  | headingOrBreak => exact kind_of_isHeadingOrBreak here

theorem Class.eq_or_of_kind_eq (same : a.kind = b.kind) :
    a = b ∨ a = .boldTitle ∧ b = .headingOrBreak ∨ a = .headingOrBreak ∧ b = .boldTitle := by
  revert same
  cases a <;> cases b <;> decide

/-- No line is of two classes. -/
theorem class_unique (here : l.isOf a = true) (here' : l.isOf b = true) : a = b := by
  have kinds : a.kind = b.kind := (kind_of_isOf here).symm.trans (kind_of_isOf here')
  -- What kinds do not tell apart, the first character does.
  have apart (bold : l.isBoldTitle = true) (start : l.isHeadingOrBreak = true) : a = b :=
    Bool.noConfusion ((isHeadingOrBreak_of_isBoldTitle bold).symm.trans start)
  rcases Class.eq_or_of_kind_eq kinds with same | ⟨rfl, rfl⟩ | ⟨rfl, rfl⟩
  · exact same
  · exact apart here here'
  · exact apart here' here

end Line

/-- What an edited line shares with the line as it was. A lone bullet can cease to be a list item when its
stray space is stripped, but after that nothing makes an item of a line or takes one away. -/
structure Settings.KeepsClasses (s : Settings) (edited l : Line) : Prop where
  blank : edited.isBlank = l.isBlank
  marker : edited.isFenceMarker = l.isFenceMarker
  item : edited.isListItem = (s.stripped l).isListItem
  bold : edited.isBoldTitle = true → l.isBoldTitle = true

variable {s : Settings} {around : Surroundings} {following : Option Line} {l : Line} {r : Rule}
  {x : Counted Line}

theorem Turn.kind_eq (positive : 1 ≤ s.headingLevel) (turn : Turn s around following r l x)
    (other : r ≠ .trailingSpaces) : x.value.kind = l.kind :=
  turn.kept (P := fun m => m.kind = l.kind) rfl fun fix => (fix.standsFor positive other).kind

theorem editLine_kind (positive : 1 ≤ s.headingLevel) (around : Surroundings) (following : Option Line)
    (l : Line) : (s.editLine around following l).value.kind = (s.stripped l).kind := by
  obtain ⟨x₁, x₂, x₃, x₄, turn₁, turn₂, turn₃, turn₄, whole⟩ := s.editLine_turns around following l
  rw [whole]
  calc x₄.value.kind
      = x₃.value.kind := turn₄.kind_eq positive nofun
    _ = x₂.value.kind := turn₃.kind_eq positive nofun
    _ = x₁.value.kind := turn₂.kind_eq positive nofun
    _ = (s.stripped l).kind := congrArg Line.kind turn₁.value_eq_stripped

theorem isBoldTitle_of_editLine (bold : (s.editLine around following l).value.isBoldTitle = true) :
    l.isBoldTitle = true := by
  revert bold
  refine s.editLine_induction (P := fun x => x.value.isBoldTitle = true → l.isBoldTitle = true) id ?_
  intro m c r edited before fix bold
  exact before (fix.isBoldTitle_before bold)

theorem editLine_keepsClasses (positive : 1 ≤ s.headingLevel) (around : Surroundings)
    (following : Option Line) (l : Line) : s.KeepsClasses (s.editLine around following l).value l where
  blank := congrArg Surroundings.afterBlank (editLine_past positive {})
  marker := isFenceMarker_editLine positive around following l
  item := congrArg Line.Kind.item (editLine_kind positive around following l)
  bold := isBoldTitle_of_editLine

/-- A line is of one class at most, and with headings of level 1 or more the edits of a document keep the
classes of all its lines. -/
theorem line_classes_are_kept :
    (∀ (l : Line) (a b : Line.Class), l.isOf a = true → (l.isOf b = true ↔ b = a)) ∧
      ∀ (s : Settings) (d : Document), 1 ≤ s.headingLevel →
        List.Forall₂ s.KeepsClasses (s.editLines d).value d := by
  refine ⟨fun l a b here => ⟨fun here' => Line.class_unique here' here, ?_⟩, fun s d positive => ?_⟩
  · rintro rfl
    exact here
  · exact editFrom_forall₂ {} fun around following l _ => editLine_keepsClasses positive around following l

theorem line_classes_are_kept_at_lone_bullets :
    (Line.isOf "---".toList .headingOrBreak = true ∧ Line.isOf "---".toList .listItem = false) ∧
      1 ≤ ({} : Settings).headingLevel ∧
      List.Forall₂ ({} : Settings).KeepsClasses ["-".toList, "-\t".toList, [], "### <http://é**> ".toList]
        ["- ".toList, "-\t".toList, [], "**http://é** :".toList] := by
  have start : Line.isOf "---".toList .headingOrBreak = true := by decide
  have other := (line_classes_are_kept.1 _ _ .listItem start).not.mpr nofun
  have edited : (Settings.editLines {} ["- ".toList, "-\t".toList, [], "**http://é** :".toList]).value =
      ["-".toList, "-\t".toList, [], "### <http://é**> ".toList] := by decide +kernel
  refine ⟨⟨start, (Bool.not_eq_true _).mp other⟩, by decide, ?_⟩
  exact edited ▸ line_classes_are_kept.2 {} _ (by decide)

end MarkdownTidy
