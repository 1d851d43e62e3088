import MarkdownTidy.Proofs.Document.TaggedFences
import MarkdownTidy.Proofs.Rounds.Compliance

namespace MarkdownTidy
variable {s : Settings}

theorem length_fenceAfter (n : Nat) (d : List Line) : (Fence.after n d).length = fenceMarkers d := by
  induction d generalizing n with
  | nil => rfl
  | cons l rest ih =>
    rw [fenceMarkers, List.countP_cons]
    cases isMarker : l.isFenceMarker with
    | true =>
      rw [fenceAfter_cons_of_marker n rest isMarker, List.length_cons, ih]
      rfl
    | false =>
      rw [fenceAfter_cons_of_not n rest isMarker, ih]
      rfl

theorem fenceMarkers_eq {P : Fence → Fence → Prop} {d d' : Document}
    (fences : List.Forall₂ P d.fences d'.fences) : fenceMarkers d' = fenceMarkers d := by
  rw [← length_fenceAfter 0 d', ← length_fenceAfter 0 d]
  exact fences.length_eq.symm

theorem keeps_trans (l₁ l₂ l₃ : Line) (first : s.Keeps l₁ l₂) (second : s.Keeps l₂ l₃) : s.Keeps l₁ l₃ :=
  first.trans second

theorem roundText_fences (positive : 1 ≤ s.headingLevel) (text : String) :
    List.Forall₂ (Fence.Becomes s.EditsFence s.Keeps) (Document.ofText text.toList).fences
      (Document.ofText (s.roundText text).value.toList).fences := by
  rw [ofText_roundText]
  exact round_fences positive (.ofText text.toList)

theorem rounds_fences (positive : 1 ≤ s.headingLevel) (n : Nat) (text : String) :
    List.Forall₂ (Fence.Becomes (fun _ _ => True) s.Keeps) (Document.ofText text.toList).fences
      (Document.ofText (s.rounds n text).value.toList).fences := by
  refine rounds_induction
    (P := fun d _ d' => List.Forall₂ (Fence.Becomes (fun _ _ => True) s.Keeps) d.fences d'.fences) ?_ ?_ ?_ n text
  · intro d
    refine List.forall₂_same.mpr fun f _ => ⟨rfl, rfl, trivial, fun _ => ?_⟩
    exact List.forall₂_same.mpr fun l _ => .of_eq rfl
  · exact fun d => (round_fences positive d).imp fun _ _ edits => { edits with marker := trivial }
  · intro d₁ d₂ d₃ c c' first later
    refine forall₂_trans ?_ first later
    exact fun f₁ f₂ f₃ first later => first.trans later (fun _ _ => trivial) keeps_trans

/-- Fenced blocks gain no lines. The fence markers stay, and below one of an odd number, up to the next
one or to the end, there is one line for each line of the text, and it keeps what that line holds. -/
theorem fenced_blocks_gain_no_lines (s : Settings) (text : String) (positive : 1 ≤ s.headingLevel) :
    let old := Document.ofText text.toList
    let new := Document.ofText (s.tidy text).content.toList
    fenceMarkers new = fenceMarkers old ∧
      List.Forall₂ (fun f f' => f'.number = f.number ∧
        (Odd f.number → f'.inside.length = f.inside.length ∧ List.Forall₂ s.Keeps f.inside f'.inside))
        old.fences new.fences := by
  intro old new
  have fences : List.Forall₂ (Fence.Becomes (fun _ _ => True) s.Keeps) old.fences new.fences := by
    change List.Forall₂ _ old.fences (Document.ofText (s.tidy text).content.toList).fences
    rw [tidy_eq_rounds]
    exact rounds_fences positive _ text
  refine ⟨fenceMarkers_eq fences, fences.imp fun f f' kept => ⟨kept.number, fun odd => ?_⟩⟩
  exact ⟨(kept.inside odd).length_eq.symm, kept.inside odd⟩

theorem fenced_blocks_gain_no_lines_around_lists :
    1 ≤ ({} : Settings).headingLevel ∧
      List.Forall₂ (fun f f' => f'.number = f.number ∧
        (Odd f.number → f'.inside.length = f.inside.length ∧ List.Forall₂ ({} : Settings).Keeps f.inside f'.inside))
        (Document.ofText "- a\n```\n- b\nc\n```\nd\n```\n- e".toList).fences
        (Document.ofText (Settings.tidy {} "- a\n```\n- b\nc\n```\nd\n```\n- e").content.toList).fences :=
  ⟨by decide, (fenced_blocks_gain_no_lines {} _ (by decide)).2⟩

end MarkdownTidy
