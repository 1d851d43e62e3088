import MarkdownTidy.Proofs.Document.BlockGaps
import MarkdownTidy.Proofs.Document.LineEdits
import MarkdownTidy.Proofs.Document.Sites
import MarkdownTidy.Proofs.Line.TrackedFences

namespace MarkdownTidy

/-- Lines of two documents side by side, which agree but for fence markers that close a block: one of the
documents may name a language where the other has been left bare. It is told whether the lines start in a
block. -/
inductive UpToClosings (s : Settings) : Bool → List Line → List Line → Prop
  | nil {inFence : Bool} : UpToClosings s inFence [] []
  | same {inFence : Bool} {l : Line} {d d' : List Line}
      (later : UpToClosings s (inFence != l.isFenceMarker) d d') : UpToClosings s inFence (l :: d) (l :: d')
  | closing {l : Line} {d d' : List Line} (left : s.LeavesBare l) (language : Language)
      (later : UpToClosings s false d d') : UpToClosings s true (l :: d) (Line.taggedFence language :: d')

/-- The same line stands in two places, or a fence that closes a block is bare in the first one and names a
language in the other. -/
def Site.AgreesWith (p q : Site) : Prop :=
  q.line = p.line ∨
    p.ClosesBlock ∧ p.line.isBareFence = true ∧ ∃ language, q.line = Line.taggedFence language

variable {s : Settings} {inFence : Bool} {around around' : Surroundings} {d d' : List Line}
  {l l' next next' : Line}

/-! To a gap it matters that a line is a fence marker, and not which one. -/

theorem gapRule?_marker_left (marker : l.isFenceMarker = true) (marker' : l'.isFenceMarker = true)
    (inFence : Bool) (next : Line) : s.gapRule? inFence l' next = s.gapRule? inFence l next := by
  have kinds := Line.kind_of_isFenceMarker marker
  have kinds' := Line.kind_of_isFenceMarker marker'
  simp only [Line.kind, Line.Kind.mk.injEq] at kinds kinds'
  simp [Settings.gapRule?, kinds, kinds']

theorem gapRule?_marker_right (marker : next.isFenceMarker = true) (marker' : next'.isFenceMarker = true)
    (inFence : Bool) (l : Line) : s.gapRule? inFence l next' = s.gapRule? inFence l next := by
  have kinds := Line.kind_of_isFenceMarker marker
  have kinds' := Line.kind_of_isFenceMarker marker'
  have headings := Line.isHeadingOrBreak_of_isFenceMarker marker
  have headings' := Line.isHeadingOrBreak_of_isFenceMarker marker'
  simp only [Line.kind, Line.Kind.mk.injEq] at kinds kinds'
  simp [Settings.gapRule?, kinds, kinds', headings, headings']

theorem past_of_isFenceMarker (marker : l.isFenceMarker = true) (around : Surroundings) :
    around.past l = ⟨false, !around.inFence⟩ := by
  have visible := congrArg Line.Kind.blank (Line.kind_of_isFenceMarker marker)
  change l.isBlank = false at visible
  rw [Surroundings.past, visible, marker, Bool.bne_true]

namespace UpToClosings

theorem refl (s : Settings) (inFence : Bool) (d : List Line) : UpToClosings s inFence d d := by
  induction d generalizing inFence with
  | nil => exact .nil
  | cons l rest ih => exact .same (ih _)

theorem length_eq (alike : UpToClosings s inFence d d') : d'.length = d.length := by
  induction alike with
  | nil => rfl
  | same _ ih => exact congrArg (· + 1) ih
  | closing _ _ _ ih => exact congrArg (· + 1) ih

/-- Where the lines start in a block, an odd number of fence markers is above them. -/
theorem sites (alike : UpToClosings s inFence d d') (above above' : List Line)
    (parity : inFence = decide (Odd (fenceMarkers above))) :
    List.Forall₂ Site.AgreesWith (sitesBelow above d) (sitesBelow above' d') := by
  induction alike generalizing above above' with
  | nil => exact .nil
  | @same inFence l d d' later ih =>
    refine .cons (Or.inl rfl) (ih (above ++ [l]) (above' ++ [l]) ?_)
    rw [parity, ← below_inFence, ← below_inFence, below_concat]
    rfl
  | @closing l d d' left language later ih =>
    have marker := Line.isFenceMarker_of_isBareFence left.bare
    have odd := of_decide_eq_true parity.symm
    refine .cons (Or.inr ⟨⟨marker, odd⟩, left.bare, language, rfl⟩) (ih _ _ ?_)
    rw [← below_inFence, below_concat, Surroundings.past, below_inFence, ← parity, marker]
    rfl

/-- What does not tell fences apart does not tell the first lines apart. -/
theorem head?_bind {α : Type} {f : Line → Option α} (alike : UpToClosings s inFence d d')
    (fences : ∀ l language, l.isBareFence = true → f (Line.taggedFence language) = f l) :
    d'.head?.bind f = d.head?.bind f := by
  cases alike with
  | nil => rfl
  | same => rfl
  | closing left language => exact fences _ language left.bare

theorem head?_infer (alike : UpToClosings s inFence d d') :
    d'.head?.map Language.infer = d.head?.map Language.infer := by
  rw [Option.map_eq_bind, Option.map_eq_bind]
  refine alike.head?_bind fun l language bare => congrArg some ?_
  rw [Language.infer_taggedFence, Language.infer_of_isBareFence bare]

theorem head?_gapRule? (alike : UpToClosings s inFence d d') (inFence' : Bool) (l : Line) :
    d'.head?.bind (s.gapRule? inFence' l) = d.head?.bind (s.gapRule? inFence' l) := by
  refine alike.head?_bind fun next language bare => ?_
  exact gapRule?_marker_right (Line.isFenceMarker_of_isBareFence bare)
    (Line.isFenceMarker_taggedFence language) inFence' l

theorem blankFor (alike : UpToClosings s inFence d d') (wanted : Option Rule) :
    UpToClosings s inFence ((blankFor wanted).value ++ d) ((blankFor wanted).value ++ d') := by
  cases wanted with
  | none => exact alike
  | some r => exact .same ((Bool.bne_false inFence).symm ▸ alike)

/-- Edits tell the documents apart at closing fences only. -/
theorem editFrom (positive : 1 ≤ s.headingLevel) (alike : UpToClosings s inFence d d')
    (parity : around.inFence = inFence) :
    let left := (s.withTracking .parity).editFrom around d
    let tagged := (s.withTracking .adjacency).editFrom around d'
    UpToClosings s inFence left.value tagged.value ∧
      Counts.AgreeBut .fenceLanguage left.counts tagged.counts := by
  induction alike generalizing around with
  | nil => exact ⟨.nil, .of_eq rfl⟩
  | @same inFence l d d' later ih =>
    have past tracking following :
        around.past ((s.withTracking tracking).editLine around following l).value = around.past l :=
      editLine_past (s := s.withTracking tracking) positive around
    have marker : ((s.withTracking .parity).editLine around d.head? l).value.isFenceMarker = l.isFenceMarker :=
      isFenceMarker_editLine (s := s.withTracking .parity) positive around d.head? l
    have parity' : (around.past l).inFence = (inFence != l.isFenceMarker) := by rw [Surroundings.past, parity]
    obtain ⟨lines, counts⟩ := ih parity'
    simp only [editFrom_cons, past]
    rcases editLine_tracking positive later.head?_infer with same | ⟨inside, left, ⟨language, tagged⟩, agree⟩
    · rw [same]
      exact ⟨.same (marker ▸ lines), (Counts.AgreeBut.of_eq rfl).add counts⟩
    · obtain rfl := inside.symm.trans parity
      rw [← marker, Line.isFenceMarker_of_isBareFence left.bare] at lines
      rw [tagged]
      exact ⟨.closing left language lines, agree.add counts⟩
  | @closing l d d' left language later ih =>
    have rests : (s.withTracking .adjacency).editLine around d'.head? (Line.taggedFence language) = pure _ :=
      Settings.editLine_eq_pure (lineRests_taggedFence language)
    have past := past_of_isFenceMarker (Line.isFenceMarker_of_isBareFence left.bare) around
    have past' := past_of_isFenceMarker (Line.isFenceMarker_taggedFence language) around
    have outside : Surroundings.inFence ⟨false, !true⟩ = false := rfl
    rw [parity] at past past'
    obtain ⟨lines, counts⟩ := ih outside
    simp only [editFrom_cons, left.editLine_eq_pure parity, rests, Counted.pure_value, Counted.pure_counts,
      past, past']
    exact ⟨.closing left language lines, (Counts.AgreeBut.of_eq rfl).add counts⟩

/-- The same gaps are made in both documents. -/
theorem gap_run (alike : UpToClosings s inFence d d') (parity : around.inFence = inFence)
    (parity' : around'.inFence = inFence) :
    UpToClosings s inFence (s.gapLocalRule.run around d).value (s.gapLocalRule.run around' d').value ∧
      (s.gapLocalRule.run around' d').counts = (s.gapLocalRule.run around d).counts := by
  induction alike generalizing around around' with
  | nil => exact ⟨.nil, rfl⟩
  | @same inFence l d d' later ih =>
    have past : (around.past l).inFence = (inFence != l.isFenceMarker) := by rw [Surroundings.past, parity]
    have past' : (around'.past l).inFence = (inFence != l.isFenceMarker) := by rw [Surroundings.past, parity']
    obtain ⟨lines, counts⟩ := ih past past'
    rw [LocalRule.run_cons, LocalRule.run_cons, gapLocalRule_eq_blankFor, gapLocalRule_eq_blankFor,
      parity, parity', later.head?_gapRule?, counts]
    exact ⟨.same (lines.blankFor _), rfl⟩
  | @closing l d d' left language later ih =>
    have marker := Line.isFenceMarker_of_isBareFence left.bare
    have marker' := Line.isFenceMarker_taggedFence language
    have past : (around.past l).inFence = false := by rw [Surroundings.past, parity, marker]; rfl
    have past' : (around'.past (Line.taggedFence language)).inFence = false := by
      rw [Surroundings.past, parity', marker']
      rfl
    obtain ⟨lines, counts⟩ := ih past past'
    rw [LocalRule.run_cons, LocalRule.run_cons, gapLocalRule_eq_blankFor, gapLocalRule_eq_blankFor,
      parity, parity', later.head?_gapRule?, funext (gapRule?_marker_left marker marker' true), counts]
    exact ⟨.closing left language (lines.blankFor _), rfl⟩

end UpToClosings
end MarkdownTidy
