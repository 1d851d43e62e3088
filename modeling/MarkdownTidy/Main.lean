import MarkdownTidy.Command.Run

namespace MarkdownTidy

/-- The number of a system error. Some calls give it with its sign turned. -/
def systemNumber : IO.Error → Nat
  | .noFileOrDirectory _ code _ | .inappropriateType _ code _ | .illegalOperation code _
  | .invalidArgument _ code _ => min code.toNat (0 - code).toNat
  | _ => 0

/-- The fault behind an error of the system. -/
def Fault.ofSystem (problem : IO.Error) : Fault :=
  match systemNumber problem with
  | 2 => .noSuchFile
  | 20 => .notFolder
  | 21 => .isFolder
  | 36 => .nameTooLong
  | _ => .refused (toString problem)

/-- The answer of the system to a request for a path. Only a text can be asked for here. -/
def ask {α : Type} (path : Path) (request : String → IO α) : IO (Except Fault α) := do
  if path.bytes.contains 0 then return .error .nulInPath
  match path.text? with
  | none => return .error (.refused Problem.pathNotText.message)
  | some name =>
    try
      return .ok (← request name)
    catch problem =>
      return .error (Fault.ofSystem problem)

/-- Runs a script on the real files. -/
def Script.perform {α : Type} : Script α → IO α
  | .done result => pure result
  | .read path next => do (next (← ask path (IO.FS.readBinFile ·))).perform
  | .write path bytes next => do (next (← ask path (IO.FS.writeBinFile · bytes))).perform
  | .tell _ next => next.perform

/-- Whether the standard output shows colors. -/
def wantsColors : IO Bool := do
  let forced ← IO.getEnv "CLICOLOR_FORCE"
  if forced.isSome && forced != some "0" then return true
  if (← IO.getEnv "NO_COLOR").isSome then return false
  return (← IO.getEnv "CLICOLOR") != some "0" && (← (← IO.getStdout).isTty)

end MarkdownTidy

def main (arguments : List String) : IO UInt32 := do
  let ended ← (MarkdownTidy.runArguments (arguments.map .ofText) (← MarkdownTidy.wantsColors)).perform
  (← IO.getStdout).putStr ended.stdout
  (← IO.getStderr).putStr ended.stderr
  return ended.code.toUInt32
