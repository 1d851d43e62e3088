import MarkdownTidy.Proofs.Document.Fences
import MarkdownTidy.Proofs.Line.FenceMarkers

namespace MarkdownTidy

/-- Whether a fence is to be tagged: it is bare, a line follows it, and with the parity of fences tracked it
opens a block. -/
def Fence.IsTagged (tracking : FenceTracking) (f : Fence) : Prop :=
  f.marker.isBareFence = true ∧ f.following.isSome = true ∧ (tracking = .adjacency ∨ Odd f.number)

instance (tracking : FenceTracking) : DecidablePred (Fence.IsTagged tracking) :=
  fun _ => inferInstanceAs (Decidable (_ ∧ _ ∧ (_ ∨ _)))

namespace Settings

/-- What tagging makes of a fence marker. One that names a language has its stray space stripped and its
URLs wrapped at most. -/
structure TagsFence (s : Settings) (f : Fence) (l : Line) : Prop where
  tagged : f.IsTagged s.tracking → ∀ next ∈ f.following, l = Line.taggedFence (.infer next)
  bare : f.marker.isBareFence = true → ¬f.IsTagged s.tracking → l.isBareFence = true
  named : f.marker.isBareFence = false → l = s.wrapped (s.stripped f.marker)

/-- No rule has anything to fix in the fence marker. -/
def FenceRests (s : Settings) (f : Fence) : Prop :=
  ∀ around : Surroundings, around.inFence = decide (Even f.number) →
    ∀ r, LineRests s around f.following r f.marker

end Settings

variable {s : Settings} {around : Surroundings} {f f' : Fence} {l : Line} {n : Nat}
  {R : Line → Line → Prop}

theorem tags_iff (parity : around.inFence = decide (Even n)) (tracking : FenceTracking) :
    tracking.tags around = true ↔ tracking = .adjacency ∨ Odd n := by
  cases tracking with
  | adjacency => simp [FenceTracking.tags]
  | parity => simp [FenceTracking.tags, parity, Nat.not_even_iff_odd]

theorem Fence.not_isTagged_of_rests (on : s.isEnabled .fenceLanguage = true)
    (parity : around.inFence = decide (Even f.number))
    (rests : LineRests s around f.following .fenceLanguage f.marker) : ¬f.IsTagged s.tracking := by
  rintro ⟨bare, follows, tags⟩
  obtain ⟨next, follows⟩ := Option.isSome_iff_exists.mp follows
  exact rests _ (.tag on ((tags_iff parity s.tracking).mpr tags) bare follows)

theorem Fence.rests_of_not_isTagged (parity : around.inFence = decide (Even f.number))
    (untagged : ¬f.IsTagged s.tracking) : LineRests s around f.following .fenceLanguage f.marker := by
  intro edited fix
  cases fix with
  | tag _ tags bare follows =>
    exact untagged ⟨bare, by rw [follows, Option.isSome_some], (tags_iff parity s.tracking).mp tags⟩

theorem Settings.EditsFence.tagsFence (on : s.isEnabled .fenceLanguage = true) (edits : s.EditsFence f l) :
    s.TagsFence f l := by
  obtain ⟨around, parity, rfl⟩ := edits
  refine ⟨?_, ?_, ?_⟩
  · rintro ⟨bare, -, tags⟩ next follows
    exact (editLine_tagged on ((tags_iff parity s.tracking).mpr tags) bare follows).1
  · intro bare untagged
    have stripped := (Line.isBareFence_stripped s f.marker).trans bare
    rw [(editLine_untagged f.isMarker (f.rests_of_not_isTagged parity untagged)).1,
      Line.wrapped_eq_self s (Line.colon_not_mem_of_isBareFence stripped)]
    exact stripped
  · intro named
    have untagged : ¬f.IsTagged s.tracking := fun tagged => Bool.noConfusion (named.symm.trans tagged.1)
    exact (editLine_untagged f.isMarker (f.rests_of_not_isTagged parity untagged)).1

theorem Fence.Becomes.rests (positive : 1 ≤ s.headingLevel) (edits : f.Becomes s.EditsFence R f') :
    s.FenceRests f' := by
  intro around' parity' r
  obtain ⟨around, parity, marker⟩ := edits.marker
  rw [edits.number] at parity'
  refine LineRests.of_following edits.follows ?_
  refine LineRests.of_inFence f'.isMarker (parity'.trans parity.symm) ?_
  rw [marker]
  exact editLine_rests_of_marker positive f.isMarker r

theorem Settings.FenceRests.marker_eq (rests : s.FenceRests f) (edits : s.EditsFence f l) :
    l = f.marker := by
  obtain ⟨around, parity, rfl⟩ := edits
  rw [s.editLine_eq_pure (rests around parity)]
  rfl

theorem editLine_tags (on : s.isEnabled .fenceLanguage = true) (f : Fence)
    (parity : around.inFence = decide (Even f.number)) :
    (s.editLine around f.following f.marker).counts.fenceLanguages =
      if f.IsTagged s.tracking then 1 else 0 := by
  split
  · rename_i tagged
    obtain ⟨bare, follows, tags⟩ := tagged
    obtain ⟨next, follows⟩ := Option.isSome_iff_exists.mp follows
    exact (editLine_tagged on ((tags_iff parity s.tracking).mpr tags) bare follows).2
  · rename_i untagged
    exact (editLine_untagged f.isMarker (f.rests_of_not_isTagged parity untagged)).2

theorem editFrom_tags (positive : 1 ≤ s.headingLevel) (on : s.isEnabled .fenceLanguage = true)
    (parity : around.inFence = decide (Odd n)) (d : List Line) :
    (s.editFrom around d).counts.fenceLanguages = (Fence.after n d).countP (·.IsTagged s.tracking) := by
  induction d generalizing n around with
  | nil => rfl
  | cons l rest ih =>
    have past : around.past (s.editLine around rest.head? l).value = around.past l :=
      editLine_past positive around
    have both : (s.editFrom around (l :: rest)).counts.fenceLanguages =
        (s.editLine around rest.head? l).counts.fenceLanguages +
          (s.editFrom (around.past l) rest).counts.fenceLanguages := by
      rw [editFrom_cons, past]
      rfl
    rw [both]
    cases isMarker : l.isFenceMarker with
    | false =>
      rw [fenceAfter_cons_of_not n rest isMarker, editLine_of_not_marker positive isMarker, Nat.zero_add]
      exact ih ((inFence_past_of_not isMarker).trans parity)
    | true =>
      have parity' : around.inFence = decide (Even (n + 1)) := by
        rw [parity]
        simp [Nat.even_add_one]
      rw [fenceAfter_cons_of_marker n rest isMarker, List.countP_cons,
        ih (inFence_past_of_marker isMarker parity), Nat.add_comm]
      simp only [decide_eq_true_eq]
      exact congrArg _ (editLine_tags on ⟨n + 1, l, rest, isMarker⟩ parity')

/-- A round tags the fences that are to be tagged. -/
theorem round_tags (positive : 1 ≤ s.headingLevel) (on : s.isEnabled .fenceLanguage = true)
    (d : Document) : (s.round d).counts.fenceLanguages = d.fences.countP (·.IsTagged s.tracking) := by
  have parity : ({} : Surroundings).inFence = decide (Odd 0) := by simp
  have gaps : (s.gapLocalRule.run {} (s.editLines d).value).counts.fenceLanguages = 0 :=
    gap_run_get s {} _ (r := .fenceLanguage) nofun nofun
  have both : (s.round d).counts.fenceLanguages = (s.editLines d).counts.fenceLanguages + 0 := by
    rw [round_counts, ← gaps]
    rfl
  exact both.trans (editFrom_tags positive on parity d)

end MarkdownTidy
