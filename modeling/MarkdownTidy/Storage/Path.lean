import MarkdownTidy.Storage.FileTree

namespace MarkdownTidy

namespace Path

/-- The greatest number of bytes in one name. -/
def nameLimit : Nat :=
  255

/-- A path has fewer bytes than this. -/
def pathLimit : Nat :=
  4096

/-- The byte between names. -/
def slash : UInt8 :=
  '/'.toUInt8

/-- The names in a path. Empty ones say nothing. -/
def names (path : Path) : List Path :=
  ((path.bytes.splitOn slash).filter fun name => !name.isEmpty).map RawText.mk

/-- Whether a path ends in a slash, so that it can only mean a folder. -/
def endsInSlash (path : Path) : Bool :=
  path.bytes.getLast? == some slash

/-- What is wrong with a path by itself. -/
def fault? (path : Path) : Option Fault :=
  if path.bytes.contains 0 then some .nulInPath
  else if path.bytes.isEmpty then some .noSuchFile
  else if pathLimit ≤ path.bytes.length then some .nameTooLong
  else none

end Path

namespace FileTree

/-- Goes from a place to a name in it. A dot stays, and two dots go back. -/
def step (t : FileTree) (place : Location) (name : Path) : Except Fault Location :=
  match t.find? place with
  | none => .error .noSuchFile
  | some (.file _) => .error .notFolder
  | some .folder =>
    if name = .dot then .ok place
    else if name = .dots then .ok place.parent
    else if Path.nameLimit < name.bytes.length then .error .nameTooLong
    else .ok (place ++ [name])

/-- The place that names lead to from the root. What is there may be missing. -/
def walk (t : FileTree) (names : List Path) : Except Fault Location :=
  names.foldlM t.step []

/-- The place that a path leads to. -/
def locate (t : FileTree) (path : Path) : Except Fault Location :=
  match Path.fault? path with
  | some fault => .error fault
  | none => t.walk (Path.names path)

def readFile (t : FileTree) (path : Path) : Except Fault ByteArray := do
  match t.find? (← t.locate path) with
  | none => .error .noSuchFile
  | some .folder => .error .isFolder
  | some (.file bytes) => if Path.endsInSlash path then .error .notFolder else .ok bytes

/-- The place at which a file is written. With a slash at its end a path means a folder, whatever
its last name is; the names before must lead to one. -/
def locateForWriting (t : FileTree) (path : Path) : Except Fault Location := do
  if Path.endsInSlash path && (Path.fault? path).isNone then
    let _ ← t.step (← t.walk (Path.names path).dropLast) .dot
    .error .isFolder
  else
    let place ← t.locate path
    match t.find? place with
    | some .folder => .error .isFolder
    | _ => .ok place

/-- Makes a file or overwrites it. -/
def writeFile (t : FileTree) (path : Path) (bytes : ByteArray) : Except Fault FileTree := do
  let place ← t.locateForWriting path
  .ok (t.put place (.file bytes))

/-- Goes from a place to a name in it, and makes a folder there if nothing is there. -/
def enter (t : FileTree) (place : Location) (name : Path) :
    Except Fault (FileTree × Location) := do
  let next ← t.step place name
  match t.find? next with
  | none => .ok (t.put next .folder, next)
  | some _ => .ok (t, next)

/-- Makes a folder and the folders on the way to it, where they are missing. An empty path asks
for none. -/
def makeFolder (t : FileTree) (path : Path) : Except Fault FileTree := do
  if path.bytes.isEmpty then .ok t
  else
    match Path.fault? path with
    | some fault => .error fault
    | none =>
      let (made, place) ← (Path.names path).foldlM (fun (t, place) name => t.enter place name)
        (t, ([] : Location))
      match made.find? place with
      | some (.file _) => .error .notFolder
      | _ => .ok made

end FileTree
end MarkdownTidy
