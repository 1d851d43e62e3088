import MarkdownTidy.Proofs.Document.LineEdits
import MarkdownTidy.Proofs.Document.Sites

namespace MarkdownTidy

namespace Site

/-- There is a line right above, and it is blank. -/
def IsBelowBlank (p : Site) : Prop :=
  ∃ l ∈ p.above.getLast?, l.isBlank = true

instance : DecidablePred IsBelowBlank := fun _ => inferInstanceAs (Decidable (∃ _ ∈ _, _))

/-- Two places agree in the line itself, in whether it is below a blank line, in the line below it, and in
the parity of the number of fence markers above. -/
structure Alike (p q : Site) : Prop where
  line : p.line = q.line
  belowBlank : p.IsBelowBlank ↔ q.IsBelowBlank
  following : p.below.head? = q.below.head?
  parity : Even p.markersAbove ↔ Even q.markersAbove

end Site

namespace Settings

/-- What a rule makes of a line by its edit, if the rule is on. -/
def applyRule (s : Settings) (r : Rule) (edit : Edit) (l : Line) : Counted Line :=
  (edit.onlyIf (s.isEnabled r)).apply r l

/-- What becomes of a line in its place, told by the lines around it as they were: a stray space is
stripped, then a bold title below a blank line is promoted, then a bare fence is tagged with the language
of the line below it, and then bare URLs are wrapped. By parity a fence is tagged only if the number of
fence markers above it is even. -/
def editSite (s : Settings) (p : Site) : Counted Line := do
  let stripped ← s.applyRule .trailingSpaces Line.stripStraySpace p.line
  let promoted ← s.applyRule .boldHeading
    (.onlyIf p.IsBelowBlank (Line.promoteTitle s.headingLevel)) stripped
  let tagged ← s.applyRule .fenceLanguage
    (.onlyIf (s.tracking = .parity → Even p.markersAbove) (Line.tagFence p.below.head?)) promoted
  s.applyRule .bareUrl Line.wrapUrls tagged

end Settings

variable {s : Settings} {p q : Site}

theorem Site.Alike.editSite_eq (alike : p.Alike q) (s : Settings) : s.editSite p = s.editSite q := by
  simp only [Settings.editSite, alike.line, alike.belowBlank, alike.following, alike.parity]

theorem below_afterBlank (p : Site) :
    (Surroundings.below p.above).afterBlank = decide p.IsBelowBlank := by
  rcases List.eq_nil_or_concat p.above with none | ⟨front, l, last⟩
  · simp [Site.IsBelowBlank, none, Surroundings.below]
  · rw [last, List.concat_eq_append, below_concat]
    simp [Site.IsBelowBlank, last, Surroundings.past]

theorem tags_below (tracking : FenceTracking) (p : Site) :
    tracking.tags (.below p.above) = decide (tracking = .parity → Even p.markersAbove) := by
  cases tracking with
  | adjacency => rfl
  | parity =>
    rw [FenceTracking.tags, below_inFence, ← decide_not]
    refine decide_eq_decide.mpr (Nat.not_odd_iff_even.trans ?_)
    exact ⟨fun even _ => even, fun even => even rfl⟩

theorem editLine_below (s : Settings) (p : Site) :
    s.editLine (.below p.above) p.below.head? p.line = s.editSite p := by
  simp only [Settings.editLine, Settings.lineEdits, below_afterBlank, tags_below, List.foldlM_cons,
    List.foldlM_nil, bind_pure]
  rfl

/-- What a line is edited to in its place depends on the lines around it as they were. -/
theorem lineRule_at (s : Settings) (p : Site) :
    s.lineRule.at p = ⟨[(s.editSite p).value], (s.editSite p).counts⟩ := by
  rw [LocalRule.at, Settings.lineRule, editLine_below]

theorem editLines_eq_sites (positive : 1 ≤ s.headingLevel) (d : Document) :
    s.editLines d = ⟨d.sites.map fun p => (s.editSite p).value,
      Counts.sum (d.sites.map fun p => (s.editSite p).counts)⟩ := by
  rw [Settings.editLines, editFrom_eq_run positive]
  refine Counted.ext_parts ?_ ?_
  · refine (s.lineRule.run_value_eq_flatMap [] d).trans ?_
    simp only [lineRule_at]
    exact List.map_eq_flatMap.symm
  · refine (s.lineRule.run_counts_eq_sum [] d).trans ?_
    simp only [lineRule_at]
    rfl

/-- Editing the lines of a document is a map over their places. As many lines come out, each is what the
lines around its place make of it, and all fixes are counted. -/
theorem lines_are_edited_in_their_places (s : Settings) (d : Document) (positive : 1 ≤ s.headingLevel) :
    (s.editLines d).value.length = d.length ∧
      (∀ i, (s.editLines d).value[i]? =
        d[i]?.map fun l => (s.editSite ⟨d.take i, l, d.drop (i + 1)⟩).value) ∧
      (s.editLines d).counts = Counts.sum (d.sites.map fun p => (s.editSite p).counts) ∧
      ∀ p q : Site, p.Alike q → s.editSite p = s.editSite q := by
  refine ⟨length_editFrom s {} d, fun i => ?_, ?_, fun p q alike => alike.editSite_eq s⟩
  · rw [editLines_eq_sites positive, List.getElem?_map, Document.sites, getElem?_sitesBelow, Option.map_map]
    rfl
  · rw [editLines_eq_sites positive]

theorem fence_is_tagged_from_the_line_below_it :
    1 ≤ ({} : Settings).headingLevel ∧
      (Settings.editLines {} [[], "**Run** ".toList, fence, "$ a http://b".toList]).value[2]? =
        some "```bash".toList := by
  refine ⟨by decide, ?_⟩
  rw [(lines_are_edited_in_their_places {} _ (by decide)).2.1 2]
  decide +kernel

end MarkdownTidy
