import MarkdownTidy.InPlace
import MarkdownTidy.Proofs.Rounds.TextRounds
import MarkdownTidy.Proofs.Storage.Actions

namespace MarkdownTidy
variable {s : Settings}

theorem tidy_counts_eq_zero_iff {text : String} :
    (s.tidy text).counts = 0 ↔ (s.tidy text).content = text := by
  rw [tidy_eq_rounds]
  exact rounds_counts_eq_zero_iff _

theorem tidy_hasChanges_iff (s : Settings) (text : String) :
    (s.tidy text).hasChanges = true ↔ (s.tidy text).content ≠ text := by
  rw [Ne, ← tidy_counts_eq_zero_iff, ← Counts.total_eq_zero_iff, Tidied.hasChanges, decide_eq_true_iff]
  exact Nat.pos_iff_ne_zero

theorem tidyFile_yields (s : Settings) (path : Path) :
    (s.tidyFile path).Yields fun report => ∃ text,
      report.counts = (s.tidy text).counts ∧ report.changed = ((s.tidy text).content != text) := by
  refine (Action.Yields.any _).bind fun text _ => ?_
  refine (Action.Yields.any _).bind fun backup _ => ?_
  refine .bind (P := (· = s.tidy text)) ?_ ?_
  · exact .during ((Action.Yields.any _).bind fun _ _ => .pure rfl)
  · rintro tidied rfl
    exact (Action.Yields.any _).bind fun _ _ => .pure ⟨text, rfl, rfl⟩

/-- The counts tell whether anything was changed: of a tidied text, of each of its rounds, of all rounds
together with the one that ends them, and of a file. -/
theorem changes_are_counted (s : Settings) :
    (∀ text, (s.tidy text).hasChanges = true ↔ (s.tidy text).content ≠ text) ∧
      (∀ text, (s.roundText text).counts = 0 ↔ (s.roundText text).value = text) ∧
      (∀ text, s.tidy text = ⟨(s.rounds (max 1 s.maxRounds) text).value,
        (s.rounds (max 1 s.maxRounds) text).counts⟩) ∧
      ∀ path tree report, ((s.tidyFile path).run tree).result = .ok report →
        report.changed = decide (0 < report.counts.total) := by
  refine ⟨tidy_hasChanges_iff s, fun _ => roundText_counts_eq_zero_iff, tidy_eq_rounds s, ?_⟩
  intro path tree report ends
  obtain ⟨text, counts, changed⟩ := tidyFile_yields s path tree report ends
  have agree := tidy_hasChanges_iff s text
  rw [Tidied.hasChanges, ← counts] at agree
  rw [changed, Bool.eq_iff_iff, bne_iff_ne]
  exact agree.symm

theorem changes_are_counted_in_file :
    ((Settings.tidyFile {} "a.md").run ⟨[(["a.md"], .file "a ".toUTF8)]⟩).result =
        .ok ⟨"a.md", "a.md.backup", .single .trailingSpaces 1, true⟩ ∧
      true = decide (0 < (Counts.single .trailingSpaces 1).total) := by
  have ends : ((Settings.tidyFile {} "a.md").run ⟨[(["a.md"], .file "a ".toUTF8)]⟩).result =
      .ok ⟨"a.md", "a.md.backup", .single .trailingSpaces 1, true⟩ := by decide +kernel
  exact ⟨ends, (changes_are_counted {}).2.2.2 "a.md" _ _ ends⟩

end MarkdownTidy
