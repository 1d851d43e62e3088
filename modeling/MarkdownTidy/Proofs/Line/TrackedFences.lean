import MarkdownTidy.Proofs.Line.FenceMarkers

namespace MarkdownTidy

/-- Counts that agree for all rules but one. -/
def Counts.AgreeBut (r : Rule) (c c' : Counts) : Prop :=
  ∀ q, q ≠ r → c'.get q = c.get q

/-- What edits leave of a bare fence that they do not tag. -/
structure Settings.LeavesBare (s : Settings) (l : Line) : Prop where
  bare : l.isBareFence = true
  stripped : s.isEnabled .trailingSpaces = true → l.endsInOneSpace = false

variable {s : Settings} {around : Surroundings} {following following' : Option Line} {l : Line}
  {r : Rule} {edited : Edited} {x₁ x₃ : Counted Line} {tracking : FenceTracking}

namespace Counts.AgreeBut

theorem of_eq {c c' : Counts} (same : c' = c) : AgreeBut r c c' :=
  fun q _ => congrArg (PerRule.get · q) same

theorem add {a a' b b' : Counts} (first : AgreeBut r a a') (second : AgreeBut r b b') :
    AgreeBut r (a + b) (a' + b') := by
  intro q other
  rw [get_add, get_add, first q other, second q other]

end Counts.AgreeBut

/-! As the first line of a block any fence is plain text. -/

theorem Language.infer_of_isBareFence (bare : l.isBareFence = true) : Language.infer l = .text := by
  rw [Line.isBareFence, beq_iff_eq] at bare
  have absent : ∀ sign ∈ Language.httpSigns,
      (sign.toList.any fun c => !isSpace c && !fence.contains c) = true := by decide
  have noSign : (Language.httpSigns.any fun sign => Text.occursIn sign.toList l) = false := by
    rw [List.any_eq_false]
    intro sign member holds
    obtain ⟨c, inside, outside⟩ := List.any_eq_true.mp (absent sign member)
    rw [Text.occursIn_iff_infix] at holds
    simp only [Bool.and_eq_true, Bool.not_eq_true', List.contains_eq_mem, decide_eq_false_iff_not] at outside
    exact outside.2 (bare ▸ Text.mem_trim (holds.subset inside) outside.1)
  rw [Language.infer, bare, noSign]
  decide

theorem Language.infer_taggedFence (language : Language) :
    Language.infer (Line.taggedFence language) = .text := by
  cases language <;> decide

/-! Edits with one way of tracking fences, and with another. -/

/-- A fix other than a tag is made with any tracking, and a tag is the same below lines of one language. -/
theorem LineFix.withTracking (fix : LineFix s around following l r edited)
    (tags : l.isBareFence = true → tracking.tags around = true)
    (first : following'.map Language.infer = following.map Language.infer) :
    LineFix (s.withTracking tracking) around following' l r edited := by
  cases fix with
  | strip on stray => exact .strip on stray
  | promote on afterBlank bold => exact .promote on afterBlank bold
  | tag on _ bare follows =>
    rw [follows, Option.map_some] at first
    obtain ⟨next', follows', language⟩ := Option.map_eq_some_iff.mp first
    rw [← language]
    exact .tag (s := s.withTracking tracking) on (tags bare) bare follows'
  | wrap on found => exact .wrap (s := s.withTracking tracking) on found

/-- A line is edited in the same way unless it is a bare fence in a block. -/
theorem editLine_withTracking (positive : 1 ≤ s.headingLevel)
    (outside : l.isBareFence = true → around.inFence = false)
    (first : following'.map Language.infer = following.map Language.infer) :
    (s.withTracking .adjacency).editLine around following' l =
      (s.withTracking .parity).editLine around following l := by
  refine editLine_congr (P := fun m => m.isBareFence = true → around.inFence = false) outside ?_ ?_
  · intro m q edited outside fix bare
    cases fix with
    | strip => exact outside ((Line.isBareFence_trimEnd m).symm.trans bare)
    | promote _ _ bold =>
      have marker := Line.kind_of_isFenceMarker (Line.isFenceMarker_of_isBareFence bare)
      obtain ⟨rest, shape⟩ := Line.heading_numberSign positive m.titleText
      change (Line.heading s.headingLevel m.titleText).kind = _ at marker
      rw [shape, Line.kind_numberSign] at marker
      exact absurd marker (by decide)
    | @tag _ _ _ next =>
      revert bare
      cases Language.infer next <;> exact nofun
    | wrap _ found =>
      have named := (Line.wrapUrls_bracketed found).isBareFence_eq_false
      exact Bool.noConfusion (named.symm.trans bare)
  · intro m q edited outside
    have tags (bare : m.isBareFence = true) : FenceTracking.parity.tags around = true := by
      rw [FenceTracking.tags, outside bare]
      rfl
    exact ⟨fun fix => fix.withTracking tags first.symm, fun fix => fix.withTracking (fun _ => rfl) first⟩

theorem lineRests_inFence (inFence : around.inFence = true) :
    LineRests (s.withTracking .parity) around following .fenceLanguage l := by
  intro edited fix
  cases fix with
  | tag _ tags =>
    change (!around.inFence) = true at tags
    rw [inFence] at tags
    contradiction

theorem Settings.LeavesBare.editLine_eq_pure (left : s.LeavesBare l) (inFence : around.inFence = true) :
    (s.withTracking .parity).editLine around following l = pure l := by
  refine Settings.editLine_eq_pure fun r edited fix => ?_
  have marker := Line.isFenceMarker_of_isBareFence left.bare
  cases fix with
  | strip on stray => exact Bool.noConfusion ((left.stripped on).symm.trans stray)
  | promote _ _ bold =>
    exact Bool.noConfusion ((Line.not_isBoldTitle_of_isFenceMarker marker).symm.trans bold)
  | tag on tags bare follows => exact lineRests_inFence inFence _ (.tag on tags bare follows)
  | wrap _ found => exact Line.colon_not_mem_of_isBareFence left.bare (Line.colon_mem_of_wrapUrls found)

theorem Turn.leavesBare (turn : Turn s around following .trailingSpaces l x₁) (bare : l.isBareFence = true) :
    s.LeavesBare x₁.value := by
  refine ⟨?_, fun on => ?_⟩
  · rw [turn.value_eq_stripped]
    exact (Line.isBareFence_stripped s l).trans bare
  · rw [← Bool.not_eq_true]
    exact fun stray => turn.rests _ (.strip on stray)

/-- At a bare fence spaces are stripped and a language is set, and that is all. -/
theorem editLine_of_isBareFence (bare : l.isBareFence = true)
    (turn₁ : Turn s around following .trailingSpaces l x₁)
    (turn₃ : Turn s around following .fenceLanguage x₁.value x₃) :
    s.editLine around following l = ⟨x₃.value, x₁.counts + x₃.counts⟩ := by
  have bare₁ := (turn₁.leavesBare bare).bare
  have rests₂ : LineRests s around following .boldHeading x₁.value :=
    lineRests_boldHeading (Line.isFenceMarker_of_isBareFence bare₁)
  have rests₄ : LineRests s around following .bareUrl x₃.value := by
    cases turn₃ with
    | rested =>
      intro edited fix
      cases fix with
      | wrap _ found => exact Line.colon_not_mem_of_isBareFence bare₁ (Line.colon_mem_of_wrapUrls found)
    | fixed fix =>
      cases fix with
      | tag => exact lineRests_taggedFence _ _
  rw [Settings.editLine_of_turns turn₁ (.rested rests₂) turn₃ (.rested rests₄)]
  refine Counted.ext_parts rfl ?_
  change x₁.counts + (0 + (x₃.counts + 0)) = x₁.counts + x₃.counts
  rw [Counts.zero_add, Counts.add_zero]

/-- Taking its turn at a line, the rule for spaces does not look at the tracking. -/
theorem exists_strip_turns (s : Settings) (around : Surroundings) (following following' : Option Line)
    (l : Line) : ∃ x, Turn (s.withTracking .parity) around following .trailingSpaces l x ∧
      Turn (s.withTracking .adjacency) around following' .trailingSpaces l x := by
  have member (tracking : FenceTracking) (following : Option Line) :
      (Rule.trailingSpaces, Line.stripStraySpace) ∈ (s.withTracking tracking).lineEdits around following := by
    simp [Settings.lineEdits]
  exact ⟨_, turn_apply (member .parity following) l, turn_apply (member .adjacency following') l⟩

/-- What becomes of a line is the same with both ways of tracking, or it is a bare fence in a block that is
left bare by one and tagged by the other. -/
theorem editLine_tracking (positive : 1 ≤ s.headingLevel)
    (first : following'.map Language.infer = following.map Language.infer) :
    let left := (s.withTracking .parity).editLine around following l
    let tagged := (s.withTracking .adjacency).editLine around following' l
    tagged = left ∨ around.inFence = true ∧ s.LeavesBare left.value ∧
      (∃ language, tagged.value = Line.taggedFence language) ∧
      Counts.AgreeBut .fenceLanguage left.counts tagged.counts := by
  intro left tagged
  by_cases closing : l.isBareFence = true ∧ around.inFence = true
  · obtain ⟨bare, inFence⟩ := closing
    -- The stray space is stripped in the same way, and then only one of the two may tag what is left.
    obtain ⟨x₁, turn₁, turn₁'⟩ := exists_strip_turns s around following following' l
    have tag : (Rule.fenceLanguage, .onlyIf true (Line.tagFence following')) ∈
        (s.withTracking .adjacency).lineEdits around following' := by
      simp [Settings.lineEdits, FenceTracking.tags, Settings.withTracking]
    have leftWhole : left = _ := editLine_of_isBareFence bare turn₁ (.rested (lineRests_inFence inFence))
    obtain ⟨x₃, turn₃⟩ : ∃ x₃, Turn _ around following' .fenceLanguage x₁.value x₃ :=
      ⟨_, turn_apply tag x₁.value⟩
    have taggedWhole : tagged = _ := editLine_of_isBareFence bare turn₁' turn₃
    cases turn₃ with
    | rested => exact Or.inl (taggedWhole.trans leftWhole.symm)
    | fixed fix =>
      right
      rw [leftWhole, taggedWhole]
      obtain ⟨bare₁, stripped⟩ := turn₁.leavesBare bare
      refine ⟨inFence, ⟨bare₁, stripped⟩, ?_, fun q other => ?_⟩
      · cases fix with
        | tag => exact ⟨_, rfl⟩
      · rw [Counts.get_add, Counts.get_add, Counts.get_single, if_neg other, Counted.pure_counts,
          Counts.get_zero]
  · refine Or.inl (editLine_withTracking positive (fun bare => ?_) first)
    rw [← Bool.not_eq_true]
    exact fun inFence => closing ⟨bare, inFence⟩

end MarkdownTidy
