import MarkdownTidy.Proofs.Line.KeptKinds

namespace MarkdownTidy
variable {s s' : Settings} {around around' : Surroundings} {following following' : Option Line}
  {l : Line} {r : Rule} {edited : Edited} {x x₁ x₂ x₃ x₄ : Counted Line}

/-- The turns of the four rules are all there is to an edit. -/
theorem Settings.editLine_of_turns (turn₁ : Turn s around following .trailingSpaces l x₁)
    (turn₂ : Turn s around following .boldHeading x₁.value x₂)
    (turn₃ : Turn s around following .fenceLanguage x₂.value x₃)
    (turn₄ : Turn s around following .bareUrl x₃.value x₄) :
    s.editLine around following l =
      ⟨x₄.value, x₁.counts + (x₂.counts + (x₃.counts + x₄.counts))⟩ := by
  obtain ⟨y₁, y₂, y₃, y₄, other₁, other₂, other₃, other₄, whole⟩ := s.editLine_turns around following l
  obtain rfl := turn₁.unique other₁
  obtain rfl := turn₂.unique other₂
  obtain rfl := turn₃.unique other₃
  obtain rfl := turn₄.unique other₄
  exact whole

/-- Where the same fixes can be made, a rule takes the same turn. -/
theorem Turn.congr (turn : Turn s around following r l x)
    (same : ∀ edited,
      LineFix s around following l r edited ↔ LineFix s' around' following' l r edited) :
    Turn s' around' following' r l x := by
  cases turn with
  | fixed fix => exact .fixed ((same _).mp fix)
  | rested rests => exact .rested fun edited fix => rests edited ((same edited).mpr fix)

theorem Turn.kept {P : Line → Prop} (turn : Turn s around following r l x) (here : P l)
    (kept : ∀ {edited}, LineFix s around following l r edited → P edited.line) : P x.value := by
  cases turn with
  | fixed fix => exact kept fix
  | rested => exact here

/-- Lines that no fix takes out of a class are edited alike in two places, if the same fixes can be made to
all lines of the class. -/
theorem editLine_congr {P : Line → Prop} (here : P l)
    (kept : ∀ {m q edited}, P m → LineFix s around following m q edited → P edited.line)
    (same : ∀ {m q edited}, P m →
      (LineFix s around following m q edited ↔ LineFix s' around' following' m q edited)) :
    s.editLine around following l = s'.editLine around' following' l := by
  obtain ⟨x₁, x₂, x₃, x₄, turn₁, turn₂, turn₃, turn₄, whole⟩ := s.editLine_turns around following l
  have here₁ : P x₁.value := turn₁.kept here (kept here)
  have here₂ : P x₂.value := turn₂.kept here₁ (kept here₁)
  have here₃ : P x₃.value := turn₃.kept here₂ (kept here₂)
  rw [whole]
  exact (Settings.editLine_of_turns (turn₁.congr fun _ => same here) (turn₂.congr fun _ => same here₁)
    (turn₃.congr fun _ => same here₂) (turn₄.congr fun _ => same here₃)).symm

/-! A blank line can only be stripped, wherever it stands. -/

theorem LineFix.strips_of_isBlank (fix : LineFix s around following l r edited)
    (blank : l.isBlank = true) : r = .trailingSpaces := by
  cases fix with
  | strip => rfl
  | promote _ _ bold =>
    have kinds := congrArg Line.Kind.blank (Line.kind_of_isBoldTitle bold)
    exact Bool.noConfusion (blank.symm.trans kinds)
  | tag _ _ bare =>
    have marker := Line.isFenceMarker_of_isBareFence bare
    have kinds := congrArg Line.Kind.blank (Line.kind_of_isFenceMarker marker)
    exact Bool.noConfusion (blank.symm.trans kinds)
  | wrap _ found =>
    have colon := List.all_eq_true.mp blank ':' (Line.colon_mem_of_wrapUrls found)
    contradiction

theorem LineFix.isBlank_of_strip (fix : LineFix s around following l .trailingSpaces edited) :
    edited.line.isBlank = l.isBlank := by
  cases fix with
  | strip => exact Line.isBlank_trimEnd l

theorem LineFix.strip_anywhere (fix : LineFix s around following l .trailingSpaces edited)
    (around' : Surroundings) (following' : Option Line) :
    LineFix s around' following' l .trailingSpaces edited := by
  cases fix with
  | strip on stray => exact .strip on stray

theorem editLine_of_isBlank (blank : l.isBlank = true) (around around' : Surroundings)
    (following following' : Option Line) :
    s.editLine around following l = s.editLine around' following' l := by
  refine editLine_congr (P := fun m => m.isBlank = true) blank ?_ ?_
  · intro m q edited blank fix
    obtain rfl := fix.strips_of_isBlank blank
    exact fix.isBlank_of_strip.trans blank
  · intro m q edited blank
    constructor
    · intro fix
      obtain rfl := fix.strips_of_isBlank blank
      exact fix.strip_anywhere around' following'
    · intro fix
      obtain rfl := fix.strips_of_isBlank blank
      exact fix.strip_anywhere around following

/-! A line that is no bold title is edited alike below a blank line and elsewhere. -/

/-- The line is not promoted, whatever stands above it. -/
def Settings.Untitled (s : Settings) (l : Line) : Prop :=
  s.isEnabled .boldHeading = true → l.isBoldTitle = false

theorem LineFix.untitled (untitled : s.Untitled l) (fix : LineFix s around following l r edited) :
    s.Untitled edited.line := by
  intro on
  have plain := untitled on
  cases fix with
  | strip =>
    rw [← Bool.not_eq_true] at plain ⊢
    exact fun bold => plain (Line.isBoldTitle_of_trimEnd bold)
  | promote => exact Line.not_isBoldTitle_heading s.headingLevel l.titleText
  | tag => exact Line.not_isBoldTitle_of_isFenceMarker (Line.isFenceMarker_taggedFence _)
  | wrap _ found =>
    rw [← Bool.not_eq_true] at plain ⊢
    exact fun bold => plain ((Line.wrapUrls_bracketed found).isBoldTitle_of_out bold)

theorem LineFix.of_inFence (untitled : s.Untitled l) (same : around'.inFence = around.inFence)
    (fix : LineFix s around following l r edited) : LineFix s around' following l r edited := by
  cases fix with
  | strip on stray => exact .strip on stray
  | promote on _ bold => exact absurd bold (by simp [untitled on])
  | tag on tags bare follows =>
    refine .tag on ?_ bare follows
    unfold FenceTracking.tags at tags ⊢
    rwa [same]
  | wrap on found => exact .wrap on found

theorem editLine_of_untitled (untitled : s.Untitled l) (same : around'.inFence = around.inFence)
    (following : Option Line) : s.editLine around' following l = s.editLine around following l :=
  editLine_congr (P := s.Untitled) untitled LineFix.untitled fun untitled =>
    ⟨LineFix.of_inFence untitled same.symm, LineFix.of_inFence untitled same⟩

theorem editLine_untitled (untitled : s.Untitled l) (around : Surroundings) (following : Option Line) :
    s.Untitled (s.editLine around following l).value :=
  s.editLine_induction (P := fun x => s.Untitled x.value) untitled LineFix.untitled

end MarkdownTidy
