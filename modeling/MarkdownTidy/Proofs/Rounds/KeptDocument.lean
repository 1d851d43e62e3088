import MarkdownTidy.Proofs.Line.KeptText
import MarkdownTidy.Proofs.Rounds.TextRounds

namespace MarkdownTidy
variable {s : Settings} {around : Surroundings} {d : List Line} {text : String}

/-- Characters other than line breaks stand in the lines. -/
theorem filter_toText {p : Char → Bool} (lineBreak : p '\n' = false) (d : Document) :
    d.toText.filter p = d.flatten.filter p := by
  induction d with
  | nil => rfl
  | cons l rest ih =>
    cases rest with
    | nil => simp [Document.toText]
    | cons next others =>
      have split : Document.toText (l :: next :: others) =
          l ++ '\n' :: Document.toText (next :: others) := by
        simp [Document.toText, List.intercalate_cons_cons]
      rw [split, List.filter_append, List.filter_cons_of_neg (by simp [lineBreak]), ih,
        ← List.filter_append]
      rfl

/-- The line breaks of a text are loose. -/
theorem kept_toText (s : Settings) (d : Document) : s.kept d.toText = s.kept d.flatten :=
  filter_toText (show (!s.isLoose '\n') = false from rfl) d

theorem keeps_flatten {d' : List Line} (lines : List.Forall₂ (fun l' l => s.Keeps l l') d' d) :
    s.Keeps d.flatten d'.flatten := by
  induction lines with
  | nil => exact .of_eq rfl
  | cons first _ ih => exact first.append ih

theorem editFrom_keeps (s : Settings) (around : Surroundings) (d : List Line) :
    s.Keeps d.flatten (s.editFrom around d).value.flatten :=
  keeps_flatten (editFrom_forall₂ around fun around following l _ => editLine_keeps s around following l)

theorem round_keeps (s : Settings) (d : Document) : s.Keeps d.flatten (s.round d).value.flatten := by
  rw [round_value, flatten_gap_run]
  exact editFrom_keeps s {} d

theorem kept_ofText (s : Settings) (t : Text) : s.kept t = s.kept (Document.ofText t).flatten := by
  rw [← kept_toText, Document.toText_ofText]

theorem rounds_keeps (s : Settings) (n : Nat) (text : String) :
    s.Keeps text.toList (s.rounds n text).value.toList := by
  have keeps : s.Keeps (Document.ofText text.toList).flatten
      (Document.ofText (s.rounds n text).value.toList).flatten :=
    rounds_induction (P := fun d _ d' => s.Keeps d.flatten d'.flatten) (fun _ => .of_eq rfl) (round_keeps s)
      .trans n text
  exact (Settings.Keeps.of_eq (kept_ofText s _)).trans (keeps.trans (.of_eq (kept_ofText s _).symm))

/-- Tidying takes out only loose characters. It puts in only loose characters too, and language tags. -/
theorem tidy_keeps_text (s : Settings) (text : String) :
    (s.kept text.toList).Sublist (s.kept (s.tidy text).content.toList) ∧
      (s.isEnabled .fenceLanguage = false →
        s.kept text.toList = s.kept (s.tidy text).content.toList) := by
  have keeps := rounds_keeps s (max 1 s.maxRounds) text
  rw [tidy_eq_rounds]
  exact ⟨keeps.sublist, keeps.eq_of_untagged⟩

theorem tidy_keeps_text_without_tags :
    Settings.isEnabled (Settings.withRule {} .fenceLanguage false) .fenceLanguage = false ∧
      (Settings.withRule {} .fenceLanguage false).kept "\n**a:** \nhttp://b".toList =
        (Settings.withRule {} .fenceLanguage false).kept
          ((Settings.withRule {} .fenceLanguage false).tidy "\n**a:** \nhttp://b").content.toList :=
  ⟨by decide, (tidy_keeps_text _ _).2 (by decide)⟩

end MarkdownTidy
