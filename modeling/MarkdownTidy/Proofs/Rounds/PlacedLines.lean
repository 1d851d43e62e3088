import MarkdownTidy.Proofs.Document.LinePlaces
import MarkdownTidy.Proofs.Rounds.TextRounds

namespace MarkdownTidy

theorem rounds_places (s : Settings) (n : Nat) (text : String) :
    s.Places (.ofText text.toList) (.ofText (s.rounds n text).value.toList) := by
  refine rounds_induction (P := fun d _ d' => s.Places d d') ?_ (round_places s) .trans n text
  exact fun d => ⟨_, .of_forall₂ (List.forall₂_same.mpr fun _ _ => .refl)⟩

theorem tidy_places (s : Settings) (text : String) :
    s.Places (.ofText text.toList) (.ofText (s.tidy text).content.toList) := by
  rw [tidy_eq_rounds]
  exact rounds_places s _ text

namespace Settings

/-- Lines of a class that end in a carriage return become lines that do. -/
def KeepsReturns (s : Settings) (P : Line → Prop) (old new : Document) : Prop :=
  ∃ place, Placing s.Becomes old new place ∧
    ∀ i, P (old.get i) → (old.get i).getLast? = some '\r' → (new.get (place i)).getLast? = some '\r'

/-- Lines of a class that stand next to each other become lines that do. -/
def KeepsTogether (s : Settings) (P : Line → Prop) (old new : Document) : Prop :=
  ∃ place, Placing s.Becomes old new place ∧
    ∀ i j, j.val = i.val + 1 → P (old.get i) → P (old.get j) → (place j).val = (place i).val + 1

end Settings

/-- Carriage returns at the ends of lines are kept in all lines that no rule replaces. -/
theorem returns_are_kept (s : Settings) (text : String) :
    s.KeepsReturns (fun l => s.isReplaced l = false) (.ofText text.toList)
      (.ofText (s.tidy text).content.toList) := by
  obtain ⟨place, placed⟩ := tidy_places s text
  refine ⟨place, placed.toPlacing, fun i whole last => ?_⟩
  have holds := (placed.changed i).keeps LineFix.holdsReturn ⟨last, whole⟩
  exact holds.last

/-- The tag of a fence takes the place of the carriage return behind it. -/
theorem returns_are_lost_behind_fences :
    let text := "```\r\n$ ls\r\n"
    ¬Settings.KeepsReturns {} (fun _ => True) (.ofText text.toList)
      (.ofText (Settings.tidy {} text).content.toList) := by
  intro text
  have old : Document.ofText text.toList = ["```\r".toList, "$ ls\r".toList, []] := by decide +kernel
  have new : Document.ofText (Settings.tidy {} text).content.toList =
      ["```bash".toList, "$ ls\r".toList, []] := by decide +kernel
  rw [old, new]
  rintro ⟨place, placing, kept⟩
  have only : ∀ j : Fin 3,
      (List.get ["```bash".toList, "$ ls\r".toList, []] j).getLast? = some '\r' → j = 1 := by decide
  have first : place 0 = 1 := only _ (kept 0 trivial rfl)
  have second : place 1 = 1 := only _ (kept 1 trivial rfl)
  have below : place 0 < place 1 := placing.increasing (by decide)
  rw [first, second] at below
  exact lt_irrefl _ below

/-- List items that stand next to each other still do, except next to one that ceases to be an item. -/
theorem items_are_kept_together (s : Settings) (text : String) :
    s.KeepsTogether s.IsLastingItem (.ofText text.toList) (.ofText (s.tidy text).content.toList) := by
  obtain ⟨place, placed⟩ := tidy_places s text
  exact ⟨place, placed.toPlacing, placed.together⟩

/-- A lone bullet is no item any more once its stray space is stripped, and a list below is kept apart
from it. -/
theorem items_part_below_lone_bullets :
    let text := "- \n- b"
    ¬Settings.KeepsTogether {} (fun l => l.isListItem = true) (.ofText text.toList)
      (.ofText (Settings.tidy {} text).content.toList) := by
  intro text
  have old : Document.ofText text.toList = ["- ".toList, "- b".toList] := by decide +kernel
  have new : Document.ofText (Settings.tidy {} text).content.toList =
      ["-".toList, [], "- b".toList] := by decide +kernel
  rw [old, new]
  rintro ⟨place, placing, together⟩
  have final : (place 1).val + 1 = 3 := placing.last 1 rfl
  have next : (place 1).val = (place 0).val + 1 := together 0 1 rfl (by decide) (by decide)
  obtain ⟨i, start⟩ : ∃ i, place i = 0 := by
    by_contra unused
    exact absurd (placing.others 0 unused) (by decide)
  have least : (place 0).val ≤ (place i).val := placing.increasing.monotone (Fin.zero_le i)
  have bottom : (place i).val = 0 := congrArg Fin.val start
  omega

end MarkdownTidy
