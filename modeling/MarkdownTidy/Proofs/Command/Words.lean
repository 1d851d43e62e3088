import MarkdownTidy.Command.Arguments

namespace MarkdownTidy.Arguments

/-- What can be said on the command line to tidy a document. The value of an option is joined to it, or is an
argument of its own. -/
inductive Word where
  | file (path : Path)
  | text
  | json
  | tracking (joined : Bool) (value : String)
  | only (joined : Bool) (value : String)

/-- An option with its value. -/
def valued (name : String) (joined : Bool) (value : String) : List RawText :=
  if joined then [.ofText (name ++ "=" ++ value)] else [.ofText name, .ofText value]

namespace Word

def arguments : Word → List RawText
  | file path => [path]
  | text => ["--stdout"]
  | json => ["--json"]
  | tracking joined value => valued "--fence-tracking" joined value
  | only joined value => valued "--only" joined value

/-- No argument that is to be a file or a value looks like an option. -/
def IsProper : Word → Prop
  | file path => formOf path = .file
  | text | json => True
  | tracking joined value | only joined value => joined = false → Form.ofText value = .file

end Word

instance : DecidablePred Word.IsProper
  | .file path => inferInstanceAs (Decidable (formOf path = .file))
  | .text | .json => .isTrue trivial
  | .tracking joined value | .only joined value =>
    inferInstanceAs (Decidable (joined = false → Form.ofText value = .file))

/-- What is given once a word is added. -/
def Given.take (g : Given) : Word → Except UsageError Given
  | .file path => g.addFile path
  | .text => g.setText
  | .json => g.setJson
  | .tracking _ value => g.addTracking value
  | .only _ value => .ok (g.addOnly value)

/-- The words of an invocation. More files may be named behind two hyphens, however they look. -/
structure Invocation where
  words : List Word
  behind : Option (List Path) := none
  proper : ∀ w ∈ words, w.IsProper

namespace Invocation

def arguments (i : Invocation) : List RawText :=
  i.words.flatMap Word.arguments ++ i.behind.elim [] (.ofText "--" :: ·)

/-- All that is said, in order. -/
def allWords (i : Invocation) : List Word :=
  i.words ++ (i.behind.getD []).map .file

end Invocation

variable {g : Given} {name value : String} {letters : Text} {joined : Bool} {w : Word}
  {words : List Word} {i : Invocation} {argument : RawText} {arguments : List RawText} {c : Command}

theorem formOf_ofText (text : String) : formOf (.ofText text) = .ofText text := by
  rw [formOf, RawText.text?_ofText]

theorem formOf_of_no_text (noText : argument.text? = none) :
    formOf argument = .file ∨ formOf argument = .broken ∨ ∃ c, formOf argument = .letter c := by
  rw [formOf, noText]
  dsimp only
  cases Form.ofText argument.display with
  | file => exact Or.inl rfl
  | letter c => exact Or.inr (Or.inr ⟨c, rfl⟩)
  | endOfOptions | option | broken => exact Or.inr (Or.inl rfl)

/-- Options are texts, and so are the hyphens that end them. -/
theorem exists_text_of_formOf {form : Form} (here : formOf argument = form) (noFile : form ≠ .file)
    (noLetter : ∀ c, form ≠ .letter c) (whole : form ≠ .broken) :
    ∃ text, argument = .ofText text ∧ Form.ofText text = form := by
  cases spelled : argument.text? with
  | some text =>
    obtain rfl := RawText.text?_eq_some_iff.mp spelled
    rw [formOf_ofText] at here
    exact ⟨text, rfl, here⟩
  | none =>
    rcases formOf_of_no_text spelled with file | broken | ⟨c, letter⟩
    · exact absurd (here.symm.trans file) noFile
    · exact absurd (here.symm.trans broken) whole
    · exact absurd (here.symm.trans letter) (noLetter c)

theorem toList_of_ofText {text : String} {joined : Option String} (form : Form.ofText text = .option name joined) :
    text.toList = name.toList ++ joined.elim [] fun value => '=' :: value.toList := by
  unfold Form.ofText at form
  split at form
  · contradiction
  · rename_i rest _ shape
    have parts := List.takeWhile_append_dropWhile (p := (· != '=')) (l := rest)
    split at form
    · rename_i none
      obtain ⟨rfl, rfl⟩ := Form.option.inj form
      rw [none, List.append_nil] at parts
      simp [shape, parts]
    · rename_i sign value some
      obtain ⟨rfl, rfl⟩ := Form.option.inj form
      have last : sign = '=' := by
        have stops := List.head?_dropWhile_not (p := (· != '=')) (l := rest)
        simpa [some] using stops
      rw [some, last] at parts
      simp [shape, parts]
  · contradiction
  · contradiction

theorem eq_of_formOf_alone (form : formOf argument = .option name none) : argument = .ofText name := by
  obtain ⟨text, rfl, shape⟩ := exists_text_of_formOf form nofun nofun nofun
  have parts := toList_of_ofText shape
  rw [Option.elim_none, List.append_nil] at parts
  rw [String.toList_inj.mp parts]

theorem eq_of_formOf_joined (form : formOf argument = .option name (some value)) :
    argument = .ofText (name ++ "=" ++ value) := by
  obtain ⟨text, rfl, shape⟩ := exists_text_of_formOf form nofun nofun nofun
  have parts := toList_of_ofText shape
  have whole : text.toList = (name ++ "=" ++ value).toList := parts.trans (by simp)
  rw [String.toList_inj.mp whole]

theorem eq_of_formOf_endOfOptions (form : formOf argument = .endOfOptions) : argument = .ofText "--" := by
  obtain ⟨text, rfl, shape⟩ := exists_text_of_formOf form nofun nofun nofun
  unfold Form.ofText at shape
  split at shape
  · rename_i hyphens
    exact congrArg RawText.ofText (String.toList_inj.mp hyphens)
  · split at shape <;> contradiction
  · contradiction
  · contradiction

theorem mem_options {meaning : Meaning} (known : options.lookup name = some meaning) :
    (name, meaning) ∈ options := by
  obtain ⟨before, after, parts, -⟩ := List.lookup_eq_some_iff.mp known
  rw [parts]
  exact List.mem_append_right before List.mem_cons_self

theorem answer_ne_tidy {request : Request} (known : options.lookup name = some (.answer request)) (c : Command) :
    request ≠ .tidy c := by
  have listed := mem_options known
  simp only [options, List.mem_cons, Prod.mk.injEq, reduceCtorEq, and_false, or_false, List.not_mem_nil,
    Meaning.answer.injEq] at listed
  rcases listed with ⟨-, rfl⟩ | ⟨-, rfl⟩ <;> exact nofun

theorem exists_word_of_switch {set : Given → Except UsageError Given}
    (known : options.lookup name = some (.switch set)) :
    ∃ w : Word, w.IsProper ∧ w.arguments = [.ofText name] := by
  have listed := mem_options known
  simp only [options, List.mem_cons, Prod.mk.injEq, reduceCtorEq, and_false, false_or, List.not_mem_nil,
    or_false] at listed
  rcases listed with ⟨rfl, -⟩ | ⟨rfl, -⟩
  · exact ⟨.text, trivial, rfl⟩
  · exact ⟨.json, trivial, rfl⟩

theorem exists_word_of_valued {add : Given → String → Except UsageError Given}
    (known : options.lookup name = some (.valued add)) (joined : Bool)
    (proper : joined = false → Form.ofText value = .file) :
    ∃ w : Word, w.IsProper ∧ w.arguments = valued name joined value := by
  have listed := mem_options known
  simp only [options, List.mem_cons, Prod.mk.injEq, reduceCtorEq, and_false, false_or, List.not_mem_nil,
    or_false] at listed
  rcases listed with ⟨rfl, -⟩ | ⟨rfl, -⟩
  · exact ⟨.tracking joined value, proper, rfl⟩
  · exact ⟨.only joined value, proper, rfl⟩

/-- The arguments are those of an invocation. -/
def IsInvoked (arguments : List RawText) : Prop :=
  ∃ i : Invocation, i.arguments = arguments

theorem IsInvoked.cons {first : List RawText} (word : ∃ w : Word, w.IsProper ∧ w.arguments = first)
    (later : IsInvoked arguments) : IsInvoked (first ++ arguments) := by
  obtain ⟨w, proper, rfl⟩ := word
  obtain ⟨i, rfl⟩ := later
  refine ⟨⟨w :: i.words, i.behind, List.forall_mem_cons.mpr ⟨proper, i.proper⟩⟩, ?_⟩
  rw [Invocation.arguments, List.flatMap_cons, List.append_assoc]
  rfl

theorem isInvoked_of_bind {x : Except UsageError Given}
    (accepted : (x >>= fun h => readFrom h arguments) = .ok (.tidy c))
    (later : ∀ h, readFrom h arguments = .ok (.tidy c) → IsInvoked arguments) : IsInvoked arguments := by
  cases x with
  | error problem => contradiction
  | ok h => exact later h accepted

/-- Whatever arguments ask to tidy a document, they are those of an invocation. -/
theorem isInvoked_of_readFrom (accepted : readFrom g arguments = .ok (.tidy c)) : IsInvoked arguments := by
  fun_induction readFrom g arguments with
  | case1 => exact ⟨⟨[], none, List.forall_mem_nil _⟩, rfl⟩
  | case2 g argument rest form =>
    rw [eq_of_formOf_endOfOptions form]
    exact ⟨⟨[], some rest, List.forall_mem_nil _⟩, rfl⟩
  | case3 g argument rest form ih =>
    exact .cons ⟨.file argument, form, rfl⟩ (isInvoked_of_bind accepted ih)
  | case9 g argument rest name request known form =>
    exact absurd (Except.ok.inj accepted) (answer_ne_tidy known c)
  | case10 g argument name set rest known form ih =>
    rw [eq_of_formOf_alone form]
    exact .cons (exists_word_of_switch known) (isInvoked_of_bind accepted ih)
  | case11 g argument name add value rest known form ih =>
    rw [eq_of_formOf_joined form]
    exact .cons (exists_word_of_valued known true nofun) (isInvoked_of_bind accepted ih)
  | case12 g argument name add value others known proper text spelled form ih =>
    obtain rfl := RawText.text?_eq_some_iff.mp spelled
    rw [eq_of_formOf_alone form]
    rw [formOf_ofText] at proper
    exact .cons (exists_word_of_valued known false fun _ => proper) (isInvoked_of_bind accepted ih)
  -- Nothing is read where the arguments are refused, or where they ask for something else.
  | case4 | case5 | case6 | case7 | case8 | case13 | case14 | case15 | case16 => cases accepted

end MarkdownTidy.Arguments
