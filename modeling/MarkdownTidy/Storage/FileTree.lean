import MarkdownTidy.Text.RawText
import MarkdownTidy.Problem

namespace MarkdownTidy

/-- A single dot, the name that stays in a folder. -/
def Path.dot : Path :=
  "."

/-- Two dots, the name that leads out of a folder. -/
def Path.dots : Path :=
  ".."

/-- Where a file or folder lies: the names on the way to it from the root. A place above the root,
or beside it, starts with two dots for each folder on the way up. -/
abbrev Location := List Path

/-- Whether a place is the root or a folder above it. -/
def Location.holdsRoot (place : Location) : Bool :=
  place.all (· == .dots)

/-- The folder that holds a place. -/
def Location.parent (place : Location) : Location :=
  if place.holdsRoot then place ++ [.dots] else place.dropLast

inductive Entry where
  | folder
  | file (bytes : ByteArray)

instance : DecidableEq Entry
  | .folder, .folder => isTrue rfl
  | .folder, .file _ => isFalse nofun
  | .file _, .folder => isFalse nofun
  | .file a, .file b =>
    match ByteArray.instDecidableEq a b with
    | isTrue same => isTrue (congrArg Entry.file same)
    | isFalse differ => isFalse fun same => differ (Entry.file.inj same)

/-- Names in the order of their bytes, and places in the order of their names. A folder stands
right before what it holds. -/
def Location.upTo (a b : Location) : Bool :=
  !List.lex b a fun x y => List.lex x.bytes y.bytes fun c d => c < d

/-- The files and folders around a root. The root and the folders above it always exist and have no
entries. -/
structure FileTree where
  entries : List (Location × Entry) := []
  deriving DecidableEq

namespace FileTree

def find? (t : FileTree) (place : Location) : Option Entry :=
  if place.holdsRoot then some .folder else t.entries.lookup place

/-- The tree with an entry at a place, instead of what was there. -/
def put (t : FileTree) (place : Location) (e : Entry) : FileTree :=
  ⟨(place, e) :: t.entries.filter fun old => old.1 != place⟩

/-- The entries below the root in the order of their places. -/
def listing (t : FileTree) : List (Location × Entry) :=
  let below := t.entries.filter fun e => e.1.head? != some .dots
  below.mergeSort fun a b => a.1.upTo b.1

theorem find?_put_self {t : FileTree} {place : Location} {e : Entry}
    (below : place.holdsRoot = false) : (t.put place e).find? place = some e := by
  simp [find?, put, below]

theorem lookup_others {es : List (Location × Entry)} {place other : Location}
    (ne : other ≠ place) :
    (es.filter fun old => old.1 != place).lookup other = es.lookup other := by
  induction es with
  | nil => rfl
  | cons first rest ih =>
    by_cases same : first.1 = place
    · rw [List.filter_cons_of_neg (by simp [same]), List.lookup_cons, same,
        beq_false_of_ne ne]
      exact ih
    · rw [List.filter_cons_of_pos (by simp [same]), List.lookup_cons, List.lookup_cons, ih]

theorem find?_put_of_ne {t : FileTree} {place other : Location} {e : Entry}
    (ne : other ≠ place) : (t.put place e).find? other = t.find? other := by
  unfold find? put
  rw [List.lookup_cons, beq_false_of_ne ne]
  simp only [lookup_others ne]

end FileTree
end MarkdownTidy
