import MarkdownTidy.Command.Run
import MarkdownTidy.Proofs.Storage.SafeFiles

namespace MarkdownTidy
/-- What a run in place prints about the file, if it can. -/
def Output.tell (colors : Bool) : Output → Report → Except Problem String
  | json, r => r.json
  | _, r => .ok (r.summary colors)

namespace Command

def withOutput (c : Command) (output : Output) : Command :=
  { c with output }

/-- How a run ends, told from what it prints or the problem that it had. -/
def exit (colors : Bool) : Except Problem String → Exit
  | .ok text => { code := 0, stdout := text }
  | .error problem =>
    { code := 1, stderr := Emphasis.failure.paint colors "Error" ++ ": " ++ problem.message ++ "\n" }

/-- The command gets no text to tidy: its settings are refused, or the file cannot be read. -/
inductive Stops (c : Command) (tree : FileTree) (problem : Problem) : Prop
  | refused (settings : c.settings = .error problem)
  | unread {s : Settings} (settings : c.settings = .ok s) (file : tree.readText c.input = .error problem)

end Command

variable {c : Command} {s : Settings} {output : Output} {tree : FileTree} {problem : Problem} {r : Report}

/-! Whether a report can be printed. -/

namespace Report

theorem json_of_text {name : String} (input : r.input = .ofText name) (backup : r.backup = backupPath r.input) :
    ∃ text, r.json = .ok text := by
  have written (text : String) : Shape.path.encode (.ofText text) = .ok (.string text) := by
    simp only [Shape.path, RawText.text?_ofText]
    rfl
  rw [backupPath, input, RawText.ofText_extend] at backup
  simp only [json, Shape.report, input, backup, written]
  exact ⟨_, rfl⟩

theorem json_of_no_text (noText : r.input.text? = none) : r.json = .error .pathNotText := by
  have refused : Shape.path.encode r.input = .error .pathNotText := by
    simp only [Shape.path, noText]
  simp only [json, Shape.report, refused]
  rfl

end Report

namespace Command

theorem run_run (c : Command) (colors : Bool) (tree : FileTree) :
    (c.run colors).run tree =
      ⟨exit colors ((c.action colors).run tree).result, ((c.action colors).run tree).tree,
        ((c.action colors).run tree).notes⟩ := by
  refine (Script.run_bind _ _ tree).trans ?_
  unfold Action.run
  dsimp only
  cases (Script.run (ExceptT.run (c.action colors)) tree).result with
  | ok text => exact congrArg (Script.Ran.mk _ _) (List.append_nil _)
  | error problem => exact congrArg (Script.Ran.mk _ _) (List.append_nil _)

/-! The settings are the same for all outputs. -/

theorem run_refused (settings : c.settings = .error problem) (output : Output) (colors : Bool)
    (tree : FileTree) :
    ((c.withOutput output).run colors).run tree = ⟨exit colors (.error problem), tree, []⟩ := by
  have acted : ((c.withOutput output).action colors).run tree = ⟨.error problem, tree, []⟩ :=
    Action.run_bind_error (congrArg (Script.Ran.mk · tree []) settings)
  rw [run_run, acted]

section Accepted
variable (settings : c.settings = .ok s) (colors : Bool) (tree : FileTree)
include settings

/-- The run that prints reads the file and does no more. -/
theorem run_text :
    ((c.withOutput .text).run colors).run tree =
      ⟨exit colors ((tree.readText c.input).bind fun text => .ok (s.tidy text).content), tree, []⟩ := by
  have action : (c.withOutput .text).action colors =
      readDocument c.input >>= fun text => Action.ofExcept (.ok (s.tidy text).content) := by
    rw [Command.action, show (c.withOutput .text).settings = .ok s from settings]
    rfl
  rw [run_run, action, Action.run_bind_ofExcept, Action.run_readDocument]

/-- The other runs tidy the file in place, and differ in what they tell of it. -/
theorem run_inPlace (inPlace : output ≠ .text) :
    ((c.withOutput output).run colors).run tree =
      ⟨exit colors (((s.tidyFile c.input).run tree).result.bind (output.tell colors)),
        ((s.tidyFile c.input).run tree).tree, ((s.tidyFile c.input).run tree).notes⟩ := by
  have action : (c.withOutput output).action colors =
      s.tidyFile c.input >>= fun report => Action.ofExcept (output.tell colors report) := by
    rw [Command.action, show (c.withOutput output).settings = .ok s from settings]
    cases output with
    | text => contradiction
    | json => rfl
    | summary => rfl
  rw [run_run, action, Action.run_bind_ofExcept]

end Accepted

theorem Stops.run (stops : c.Stops tree problem) (output : Output) (colors : Bool) :
    (((c.withOutput output).run colors).run tree).tree = tree ∧
      (((c.withOutput output).run colors).run tree).result = exit colors (.error problem) := by
  cases stops with
  | refused settings =>
    rw [run_refused settings]
    exact ⟨rfl, rfl⟩
  | unread settings file =>
    by_cases inPlace : output = .text
    · rw [inPlace, run_text settings, file]
      exact ⟨rfl, rfl⟩
    · rw [run_inPlace settings colors tree inPlace, Action.run_tidyFile_unread file]
      exact ⟨rfl, rfl⟩

/-- What a run in place leaves in the file is what the run that prints shows. -/
theorem prints_what_is_written (inPlace : output ≠ .text) (colors : Bool)
    (good : (((c.withOutput output).run colors).run tree).result.code = 0) :
    ∃ content, (((c.withOutput .text).run colors).run tree).result = { code := 0, stdout := content } ∧
      (((c.withOutput output).run colors).run tree).tree.readFile c.input = .ok content.toUTF8 := by
  cases settings : c.settings with
  | error problem =>
    rw [run_refused settings] at good
    contradiction
  | ok s =>
    rw [run_inPlace settings colors tree inPlace] at good ⊢
    cases reads : tree.readText c.input with
    | error problem =>
      rw [Action.run_tidyFile_unread reads] at good
      contradiction
    | ok text =>
      have original := readFile_of_readText reads
      cases tidyFile_outcome s c.input tree with
      | unread problem cause => exact absurd (reads.symm.trans cause) nofun
      | noBackup _ fault _ _ result =>
        rw [result] at good
        contradiction
      | tidied text' again _ _ written =>
        obtain rfl := String.toByteArray_inj.mp (Except.ok.inj (again.symm.trans original))
        refine ⟨(s.tidy text').content, ?_, written⟩
        rw [run_text settings, reads]
        rfl

/-- Runs in place leave the same files and end in the same way, as long as the path can be written in the
report. If it cannot, this comes out when the file is tidied already. -/
theorem json_like_summary (c : Command) (colors : Bool) (tree : FileTree) :
    let json := ((c.withOutput .json).run colors).run tree
    let summary := ((c.withOutput .summary).run colors).run tree
    json.tree = summary.tree ∧
      (c.input.text?.isSome = true ∨ summary.result.code ≠ 0 →
        json.result.code = summary.result.code ∧ json.result.stderr = summary.result.stderr) ∧
      (c.input.text? = none → summary.result.code = 0 → json.result = exit colors (.error .pathNotText)) := by
  intro json summary
  cases settings : c.settings with
  | error problem =>
    have stops (output : Output) := run_refused settings output colors tree
    rw [show json = _ from stops .json, show summary = _ from stops .summary]
    exact ⟨rfl, fun _ => ⟨rfl, rfl⟩, nofun⟩
  | ok s =>
    rw [show json = _ from run_inPlace settings colors tree nofun,
      show summary = _ from run_inPlace settings colors tree nofun]
    refine ⟨rfl, ?_⟩
    cases tidyFile_outcome s c.input tree with
    | unread problem _ result =>
      rw [result]
      exact ⟨fun _ => ⟨rfl, rfl⟩, nofun⟩
    | noBackup _ fault _ _ result =>
      rw [result]
      exact ⟨fun _ => ⟨rfl, rfl⟩, nofun⟩
    | tidied text _ result =>
      rw [result]
      cases spelled : c.input.text? with
      | none =>
        refine ⟨fun fine => ?_, fun _ _ => congrArg (exit colors) (Report.json_of_no_text spelled)⟩
        rcases fine with some | failed
        · contradiction
        · exact absurd rfl failed
      | some name =>
        obtain ⟨printed, report⟩ := Report.json_of_text (r := ⟨c.input, backupPath c.input, (s.tidy text).counts,
          (s.tidy text).content != text⟩) (RawText.text?_eq_some_iff.mp spelled) rfl
        refine ⟨fun _ => ?_, nofun⟩
        change (exit colors (Report.json _)).code = 0 ∧ (exit colors (Report.json _)).stderr = ""
        rw [report]
        exact ⟨rfl, rfl⟩

end Command

/-- The outputs of the command agree. The run that prints leaves all files as they were, and what it prints is
what a run in place that ends well leaves in the file. Where the settings are refused or the file cannot be read,
all runs end with the same problem and touch nothing. The runs in place leave the same files, and differ in what
they print only, unless the file is tidied under a path that is no text: then the report is refused. -/
theorem outputs_agree (c : Command) (colors : Bool) (tree : FileTree) :
    let ran (output : Output) := ((c.withOutput output).run colors).run tree
    let failed (problem : Problem) : Exit :=
      { code := 1, stderr := Emphasis.failure.paint colors "Error" ++ ": " ++ problem.message ++ "\n" }
    (ran .text).tree = tree ∧
      (∀ output, output ≠ .text → (ran output).result.code = 0 → ∃ content,
        (ran .text).result = { code := 0, stdout := content } ∧
          (ran output).tree.readFile c.input = .ok content.toUTF8) ∧
      (∀ problem, c.Stops tree problem → ∀ output,
        (ran output).tree = tree ∧ (ran output).result = failed problem) ∧
      (ran .json).tree = (ran .summary).tree ∧
      (c.input.text?.isSome = true ∨ (ran .summary).result.code ≠ 0 →
        (ran .json).result.code = (ran .summary).result.code ∧
          (ran .json).result.stderr = (ran .summary).result.stderr) ∧
      (c.input.text? = none → (ran .summary).result.code = 0 → (ran .json).result = failed .pathNotText) := by
  intro ran failed
  refine ⟨?_, ?_, fun problem stops output => stops.run output colors, c.json_like_summary colors tree⟩
  · cases settings : c.settings with
    | error problem => exact ((Command.Stops.refused settings).run .text colors).1
    | ok s => exact congrArg Script.Ran.tree (Command.run_text settings colors tree)
  · intro output inPlace good
    exact c.prints_what_is_written inPlace colors good

theorem outputs_agree_on_file_and_folder :
    let tree : FileTree := ⟨[(["notes"], .folder), (["a.md"], .file "a ".toUTF8)]⟩
    let file : Command := { input := "a.md" }
    let folder : Command := { input := "notes", only := ["MD009"] }
    let ran (c : Command) (output : Output) := ((c.withOutput output).run false).run tree
    ((ran file .json).result.code = 0 ∧ folder.Stops tree (.storage .isFolder)) ∧
      (∃ content, (ran file .text).result = { code := 0, stdout := content } ∧
        (ran file .json).tree.readFile "a.md" = .ok content.toUTF8) ∧
      (∀ output, (ran folder output).tree = tree ∧ (ran folder output).result =
        { code := 1, stderr := "Error: I/O error: Is a directory (os error 21)\n" }) ∧
      (ran file .json).result.stderr = (ran file .summary).result.stderr := by
  intro tree file folder ran
  have good : (ran file .json).result.code = 0 := by decide +kernel
  have unread : FileTree.readText ⟨[(["notes"], .folder), (["a.md"], .file "a ".toUTF8)]⟩ "notes" =
      .error (.storage .isFolder) := by rfl
  have stops : folder.Stops tree (.storage .isFolder) := .unread (by rfl) unread
  have spelled : file.input.text?.isSome = true := by decide +kernel
  have agree := outputs_agree file false tree
  have agree' := outputs_agree folder false tree
  exact ⟨⟨good, stops⟩, agree.2.1 .json nofun good, agree'.2.2.1 _ stops, (agree.2.2.2.2.1 (.inl spelled)).2⟩

/-- A report cannot be printed for a path that is no text. This comes out when the file and its backup are written
already, and the same run without a report ends well. -/
theorem report_is_refused_behind_the_write :
    let path : Path := ⟨[0xff, 0x2e, 0x6d, 0x64]⟩
    let tree : FileTree := ⟨[([path], .file "a ".toUTF8)]⟩
    let ran (arguments : List RawText) := (runArguments arguments false).run tree
    (ran [path]).result.code = 0 ∧ (ran [path]).result.stderr = "" ∧
      (ran ["--json", path]).result =
        { code := 1, stderr := "Error: path contains invalid UTF-8 characters\n" } ∧
      (ran ["--json", path]).tree = (ran [path]).tree ∧
      (ran [path]).tree =
        ⟨[([path], .file "a".toUTF8), ([path.extend ".backup"], .file "a ".toUTF8)]⟩ := by
  decide +kernel

end MarkdownTidy
