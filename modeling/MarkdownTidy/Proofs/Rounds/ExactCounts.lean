import MarkdownTidy.Proofs.Document.InsertedLines
import MarkdownTidy.Proofs.Rounds.KeptDocument

namespace MarkdownTidy
variable {s : Settings} {c : Char}

theorem rounds_widened (s : Settings) (n : Nat) (text : String) :
    Widened s.Retains false (.ofText text.toList) (.ofText (s.rounds n text).value.toList)
      (s.rounds n text).counts.blankLines := by
  refine rounds_induction (P := fun d c d' => Widened s.Retains false d d' c.blankLines) ?_ (round_widened s)
    ?_ n text
  · exact fun d => .of_forall₂ (List.forall₂_same.mpr fun l _ => retains_refl s l)
  · intro d₁ d₂ d₃ c c' first later
    rw [blankLines_add]
    exact first.trans retains_trans retains_nil later

theorem count_sign_toText (sign : c ∈ signs) (d : Document) : d.toText.count c = d.flatten.count c := by
  have noBreak : c ≠ '\n' := ne_of_mem_of_not_mem sign (by decide)
  rw [List.count_eq_length_filter, List.count_eq_length_filter,
    filter_toText (p := (· == c)) (beq_false_of_ne noBreak.symm)]

theorem count_sign_ofText (sign : c ∈ signs) (t : Text) : t.count c = (Document.ofText t).flatten.count c := by
  rw [← count_sign_toText sign, Document.toText_ofText]

theorem rounds_count_sign (s : Settings) (n : Nat) (text : String) (sign : c ∈ signs) :
    (s.rounds n text).value.toList.count c = text.toList.count c + s.gained (s.rounds n text).counts c := by
  rw [count_sign_ofText sign, count_sign_ofText sign text.toList]
  refine rounds_induction (P := fun d f d' => d'.flatten.count c = d.flatten.count c + s.gained f c) ?_
    (round_count_sign sign s) ?_ n text
  · intro d
    rw [gained_zero, Nat.add_zero]
  · intro d₁ d₂ d₃ f f' first later
    rw [later, first, gained_add, Nat.add_assoc]

theorem tidy_count_sign (s : Settings) (text : String) (sign : c ∈ signs) :
    (s.tidy text).content.toList.count c = text.toList.count c + s.gained (s.tidy text).counts c := by
  rw [tidy_eq_rounds]
  exact rounds_count_sign s _ text sign

/-- The counts say exactly what a tidied text has more than the text had. Its lines are those of the text,
the first and the last in their places, and as many empty lines among them as gaps were counted. There
are two more angle brackets for each URL, the number signs of each heading, and no more backticks. -/
theorem counts_are_exact (s : Settings) (text : String) :
    let old := Document.ofText text.toList
    let new := Document.ofText (s.tidy text).content.toList
    let counts := (s.tidy text).counts
    (∃ place : Fin old.length → Fin new.length, Placing s.Retains old new place ∧
      (∀ i, i.val = 0 → (place i).val = 0) ∧
      (Finset.univ.image place)ᶜ.card = counts.fenceSpacing + counts.listSpacing) ∧
    (s.tidy text).content.toList.count '<' = text.toList.count '<' + counts.bareUrls ∧
    (s.tidy text).content.toList.count '>' = text.toList.count '>' + counts.bareUrls ∧
    (s.tidy text).content.toList.count '#' =
      text.toList.count '#' + s.headingLevel * counts.boldHeadings ∧
    (s.tidy text).content.toList.count '`' = text.toList.count '`' := by
  intro old new counts
  have wide : Widened s.Retains false old new counts.blankLines := by
    change Widened s.Retains false old (.ofText (s.tidy text).content.toList) (s.tidy text).counts.blankLines
    rw [tidy_eq_rounds]
    exact rounds_widened s _ text
  exact ⟨wide.placing, tidy_count_sign s text (by decide), tidy_count_sign s text (by decide),
    tidy_count_sign s text (by decide), tidy_count_sign s text (by decide)⟩

end MarkdownTidy
