import MarkdownTidy.Proofs.Line.SameEdits
import MarkdownTidy.Proofs.Rounds.FencedBlocks

namespace MarkdownTidy
variable {s : Settings} {d e : Document} {a b : String}

/-- Two runs of lines of which neither can see into the other: a blank line and no open fence end the first,
and no bold title starts the second. -/
structure Settings.Apart (s : Settings) (d e : Document) : Prop where
  ends : ∀ l ∈ d.getLast?, l.isBlank = true
  closed : Even (fenceMarkers d)
  starts : ∀ l ∈ e.head?, s.Untitled l

theorem getLast?_editLines (positive : 1 ≤ s.headingLevel) (front : List Line) (z : Line) :
    ∃ z', (s.editLines (front ++ [z])).value.getLast? = some z' ∧ z'.isBlank = z.isBlank := by
  obtain ⟨start, last⟩ := LocalRule.run_concat s.lineRule {} front z
  refine ⟨(s.editLine (front.foldl .past {}) none z).value, ?_, ?_⟩
  · rw [Settings.editLines, editFrom_eq_run positive, last]
    exact List.getLast?_concat
  · exact congrArg Surroundings.afterBlank (editLine_past positive {})

theorem getLast?_gap_run (s : Settings) (front : List Line) (z : Line) :
    (s.gapLocalRule.run {} (front ++ [z])).value.getLast? = some z := by
  obtain ⟨start, last⟩ := LocalRule.run_concat s.gapLocalRule {} front z
  rw [last]
  exact List.getLast?_concat

theorem isBlank_getLast?_editLines (positive : 1 ≤ s.headingLevel)
    (ends : ∀ l ∈ d.getLast?, l.isBlank = true) :
    ∀ l ∈ (s.editLines d).value.getLast?, l.isBlank = true := by
  rcases List.eq_nil_or_concat' d with rfl | ⟨front, z, rfl⟩
  · exact ends
  · obtain ⟨z', last, same⟩ := getLast?_editLines positive front z
    rw [last]
    rintro l ⟨⟩
    exact same.trans (ends z List.getLast?_concat)

theorem untitled_head?_editLines (starts : ∀ l ∈ d.head?, s.Untitled l) :
    ∀ l ∈ (s.editLines d).value.head?, s.Untitled l := by
  cases d with
  | nil => exact starts
  | cons l rest =>
    rw [Settings.editLines, editFrom_cons]
    rintro l' ⟨⟩
    exact editLine_untitled (starts l rfl) _ _

namespace Settings.Apart

/-- Edits keep runs of lines apart. -/
theorem editLines (positive : 1 ≤ s.headingLevel) (apart : s.Apart d e) :
    s.Apart (s.editLines d).value (s.editLines e).value where
  ends := isBlank_getLast?_editLines positive apart.ends
  closed := by
    have parity : ({} : Surroundings).inFence = decide (Odd 0) := by simp
    have fences : List.Forall₂ _ d.fences (s.editLines d).value.fences := editFrom_fences positive parity d
    rw [fenceMarkers_eq fences]
    exact apart.closed
  starts := untitled_head?_editLines apart.starts

/-- So do gaps. -/
theorem gaps (apart : s.Apart d e) :
    s.Apart (s.gapLocalRule.run {} d).value (s.gapLocalRule.run {} e).value where
  ends := by
    rcases List.eq_nil_or_concat' d with rfl | ⟨front, z, rfl⟩
    · exact apart.ends
    · rw [getLast?_gap_run, ← List.getLast?_concat (l := front) (a := z)]
      exact apart.ends
  closed := by
    have parity : ({} : Surroundings).inFence = decide (Odd 0) := by simp
    have fences : List.Forall₂ _ d.fences (Document.fences (s.gapLocalRule.run {} d).value) :=
      gap_run_fences s parity d
    rw [fenceMarkers_eq fences]
    exact apart.closed
  starts := by
    rw [head?_gap_run]
    exact apart.starts

theorem inFence_past (apart : s.Apart d e) : (d.foldl .past ({} : Surroundings)).inFence = false :=
  inFence_of_even apart.closed

theorem editLines_append (positive : 1 ≤ s.headingLevel) (apart : s.Apart d e) :
    s.editLines (d ++ e) =
      ⟨(s.editLines d).value ++ (s.editLines e).value, (s.editLines d).counts + (s.editLines e).counts⟩ := by
  have below : s.lineRule.run (d.foldl .past {}) e = s.lineRule.run {} e := by
    refine LocalRule.run_congr_inFence apart.inFence_past fun l first => ?_
    have same : (d.foldl Surroundings.past {}).inFence = ({} : Surroundings).inFence := apart.inFence_past
    rw [Settings.lineRule, Settings.lineRule, editLine_of_untitled (apart.starts l first) same]
  rw [Settings.editLines, Settings.editLines, Settings.editLines, editFrom_eq_run positive,
    editFrom_eq_run positive, editFrom_eq_run positive, LocalRule.run_append, below]
  rintro front l rfl
  have blank := apart.ends l List.getLast?_concat
  rw [Settings.lineRule, Settings.lineRule, editLine_of_isBlank blank _ _ e.head? none]

theorem gaps_append (apart : s.Apart d e) :
    s.gapLocalRule.run {} (d ++ e) =
      ⟨(s.gapLocalRule.run {} d).value ++ (s.gapLocalRule.run {} e).value,
        (s.gapLocalRule.run {} d).counts + (s.gapLocalRule.run {} e).counts⟩ := by
  have below : s.gapLocalRule.run (d.foldl .past {}) e = s.gapLocalRule.run {} e := by
    refine LocalRule.run_congr_inFence apart.inFence_past fun l _ => ?_
    rw [Settings.gapLocalRule, Settings.gapLocalRule, apart.inFence_past]
  rw [LocalRule.run_append, below]
  rintro front l rfl
  have blank := apart.ends l List.getLast?_concat
  unfold Settings.gapLocalRule
  cases e.head? with
  | none => rfl
  | some next => rw [Option.bind_some, gapRule?_blank_left blank]; rfl

/-- A round tidies runs of lines that are apart each on its own. -/
theorem round_append (positive : 1 ≤ s.headingLevel) (apart : s.Apart d e) :
    s.round (d ++ e) =
      ⟨(s.round d).value ++ (s.round e).value, (s.round d).counts + (s.round e).counts⟩ := by
  have gaps := (apart.editLines positive).gaps_append
  refine Counted.ext_parts ?_ ?_
  · simp only [round_value, apart.editLines_append positive, gaps]
  · simp only [round_counts, apart.editLines_append positive, gaps]
    exact PerRule.ext_get fun r => by simp only [Counts.get_add]; omega

theorem round (positive : 1 ≤ s.headingLevel) (apart : s.Apart d e) :
    s.Apart (s.round d).value (s.round e).value := by
  rw [round_value, round_value]
  exact (apart.editLines positive).gaps

end Settings.Apart

/-! The same for texts. -/

theorem ofText_append (a b : String) :
    Document.ofText (a ++ "\n" ++ b).toList = Document.ofText a.toList ++ Document.ofText b.toList := by
  rw [String.toList_append, String.toList_append, List.append_assoc]
  exact List.splitOn_append_cons_self a.toList b.toList

theorem toText_append (some : d ≠ []) (some' : e ≠ []) :
    Document.toText (d ++ e) = d.toText ++ '\n' :: e.toText := by
  induction d with
  | nil => contradiction
  | cons l rest ih =>
    unfold Document.toText at ih ⊢
    cases rest with
    | nil =>
      rw [List.singleton_append, List.intercalate_cons_of_ne_nil some', List.intercalate_singleton,
        List.append_assoc, List.singleton_append]
    | cons next others =>
      have nonempty : next :: others ++ e ≠ [] := List.cons_ne_nil next (others ++ e)
      rw [List.cons_append, List.intercalate_cons_of_ne_nil nonempty, ih (List.cons_ne_nil next others),
        List.intercalate_cons_of_ne_nil (List.cons_ne_nil next others)]
      simp only [List.append_assoc]

theorem roundText_append (positive : 1 ≤ s.headingLevel)
    (apart : s.Apart (.ofText a.toList) (.ofText b.toList)) :
    s.roundText (a ++ "\n" ++ b) =
      ⟨(s.roundText a).value ++ "\n" ++ (s.roundText b).value,
        (s.roundText a).counts + (s.roundText b).counts⟩ := by
  have first := (readable_round (s := s) (readable_ofText a.toList)).nonempty
  have second := (readable_round (s := s) (readable_ofText b.toList)).nonempty
  refine Counted.ext_parts ?_ ?_
  · change String.ofList (s.round (.ofText (a ++ "\n" ++ b).toList)).value.toText = _
    rw [ofText_append, apart.round_append positive]
    change String.ofList (Document.toText ((s.round _).value ++ (s.round _).value)) = _
    rw [toText_append first second, List.append_cons, String.ofList_append, String.ofList_append]
    rfl
  · change (s.round (.ofText (a ++ "\n" ++ b).toList)).counts = _
    rw [ofText_append, apart.round_append positive]
    rfl

theorem rounds_append (positive : 1 ≤ s.headingLevel) (n : Nat) (a b : String)
    (apart : s.Apart (.ofText a.toList) (.ofText b.toList)) :
    s.rounds n (a ++ "\n" ++ b) =
      ⟨(s.rounds n a).value ++ "\n" ++ (s.rounds n b).value,
        (s.rounds n a).counts + (s.rounds n b).counts⟩ := by
  induction n generalizing a b with
  | zero => exact Counted.ext_parts rfl (Counts.add_zero 0).symm
  | succ n ih =>
    have stillApart := apart.round positive
    rw [← ofText_roundText, ← ofText_roundText] at stillApart
    have later := ih _ _ stillApart
    refine Counted.ext_parts ?_ ?_
    · rw [Settings.rounds, Counted.bind_value, roundText_append positive apart, later]
      rfl
    · rw [Settings.rounds, Counted.bind_counts, roundText_append positive apart, later]
      change _ = (_ + _ : Counts) + (_ + _)
      exact PerRule.ext_get fun r => by simp only [Counts.get_add]; omega

/-- Sections are tidied each on its own: a text that ends in a blank line and in no open fence, and one that
does not start with a bold title. -/
theorem sections_are_tidied_apart (s : Settings) (a b : String) (positive : 1 ≤ s.headingLevel)
    (ends : ∀ l ∈ (Document.ofText a.toList).getLast?, l.isBlank = true)
    (closed : Even (fenceMarkers (Document.ofText a.toList)))
    (starts : ∀ l ∈ (Document.ofText b.toList).head?, l.isBoldTitle = false ∨ s.isEnabled .boldHeading = false) :
    s.tidy (a ++ "\n" ++ b) =
      ⟨(s.tidy a).content ++ "\n" ++ (s.tidy b).content, (s.tidy a).counts + (s.tidy b).counts⟩ := by
  have untitled : ∀ l ∈ (Document.ofText b.toList).head?, s.Untitled l := by
    intro l first on
    exact (starts l first).resolve_right (by simp [on])
  rw [tidy_eq_rounds, tidy_eq_rounds, tidy_eq_rounds, rounds_append positive _ a b ⟨ends, closed, untitled⟩]

theorem sections_are_tidied_apart_at_fences :
    let a := "- a\n```\n**b**\n```\n "
    let b := "http://c\n\n**d**"
    (1 ≤ ({} : Settings).headingLevel ∧ (∀ l ∈ (Document.ofText a.toList).getLast?, l.isBlank = true) ∧
      Even (fenceMarkers (Document.ofText a.toList)) ∧
      ∀ l ∈ (Document.ofText b.toList).head?,
        l.isBoldTitle = false ∨ Settings.isEnabled {} .boldHeading = false) ∧
      Settings.tidy {} (a ++ "\n" ++ b) =
        ⟨(Settings.tidy {} a).content ++ "\n" ++ (Settings.tidy {} b).content,
          (Settings.tidy {} a).counts + (Settings.tidy {} b).counts⟩ := by
  intro a b
  have ends : ∀ l ∈ (Document.ofText a.toList).getLast?, l.isBlank = true := by decide +kernel
  have closed : Even (fenceMarkers (Document.ofText a.toList)) := by decide +kernel
  have starts : ∀ l ∈ (Document.ofText b.toList).head?,
      l.isBoldTitle = false ∨ Settings.isEnabled {} .boldHeading = false := by decide +kernel
  exact ⟨⟨by decide, ends, closed, starts⟩,
    sections_are_tidied_apart {} a b (by decide) ends closed starts⟩

end MarkdownTidy
