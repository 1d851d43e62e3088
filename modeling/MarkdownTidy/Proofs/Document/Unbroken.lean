import MarkdownTidy.Proofs.Document.RoundBurden

namespace MarkdownTidy
variable {s : Settings} {around : Surroundings} {following : Option Line} {l : Line} {r : Rule}
  {edited : Edited} {d : List Line}

theorem LineFix.unbroken (fix : LineFix s around following l r edited) (whole : '\n' ∉ l) :
    '\n' ∉ edited.line := by
  cases fix with
  | strip => exact fun member => whole ((Text.dropEndWhile_isPrefix isSpace l).subset member)
  | promote =>
    obtain ⟨indent, back, parts, -⟩ := Line.titleText_split l
    intro member
    rcases List.mem_append.mp member with sign | later
    · exact absurd (List.eq_of_mem_replicate sign) (by decide)
    · rcases List.mem_cons.mp later with space | inTitle
      · exact absurd space (by decide)
      · refine whole ?_
        rw [← parts]
        simp [inTitle]
  | @tag _ _ _ next =>
    change '\n' ∉ Line.taggedFence (.infer next)
    cases Language.infer next <;> decide
  | wrap _ found =>
    obtain ⟨-, line, -⟩ := Line.pieces_of_wrapUrls found
    rw [← Url.flatMap_text_pieces none l] at whole
    rw [line]
    intro member
    obtain ⟨piece, known, inside⟩ := List.mem_flatMap.mp member
    refine whole (List.mem_flatMap.mpr ⟨piece, known, ?_⟩)
    cases piece with
    | plain c => exact inside
    | url u => simpa [Url.Piece.wrapped, Url.Piece.text] using inside

theorem editLine_unbroken (whole : '\n' ∉ l) : '\n' ∉ (s.editLine around following l).value :=
  s.editLine_induction (P := fun x => '\n' ∉ x.value) whole fun before fix => fix.unbroken before

theorem editFrom_unbroken (whole : ∀ l ∈ d, '\n' ∉ l) :
    ∀ l ∈ (s.editFrom around d).value, '\n' ∉ l :=
  forall_mem_editFrom around fun _ _ l member => editLine_unbroken (whole l member)

/-- A document that can be told from its text: it has a line, and none of its lines has a break. -/
structure Document.Readable (d : Document) : Prop where
  nonempty : d ≠ []
  unbroken : ∀ l ∈ d, '\n' ∉ l

theorem unbroken_ofText (t : Text) : ∀ l ∈ Document.ofText t, '\n' ∉ l := by
  induction t with
  | nil => simp [Document.ofText]
  | cons c rest ih =>
    obtain ⟨first, others, cut⟩ := List.exists_cons_of_ne_nil (Document.ofText_ne_nil rest)
    rw [cut] at ih
    change List.splitOn '\n' rest = first :: others at cut
    rw [Document.ofText, List.splitOn_cons_eq_if_modifyHead, cut]
    intro l member
    split at member
    · rcases List.mem_cons.mp member with rfl | later
      · exact List.not_mem_nil
      · exact ih l later
    · rename_i other
      rcases List.mem_cons.mp member with rfl | later
      · have here := ih first List.mem_cons_self
        rw [List.mem_cons, not_or]
        exact ⟨fun same => other (by simp [← same]), here⟩
      · exact ih l (List.mem_cons_of_mem first later)

theorem readable_ofText (t : Text) : (Document.ofText t).Readable :=
  ⟨Document.ofText_ne_nil t, unbroken_ofText t⟩

theorem readable_round {d : Document} (readable : d.Readable) : (s.round d).value.Readable := by
  rw [round_value]
  refine ⟨?_, ?_⟩
  · intro empty
    have first := head?_gap_run s {} (s.editLines d).value
    have length := length_editFrom s {} d
    rw [empty, List.head?_nil] at first
    rw [show (s.editFrom {} d).value = [] from List.head?_eq_none_iff.mp first.symm] at length
    exact readable.nonempty (List.length_eq_zero_iff.mp length.symm)
  · intro l member
    rcases mem_gap_run member with kept | rfl
    · exact editFrom_unbroken readable.unbroken l kept
    · exact List.not_mem_nil

end MarkdownTidy
