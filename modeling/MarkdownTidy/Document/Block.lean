import MarkdownTidy.Line.Class

namespace MarkdownTidy

/-- A part of a document that keeps its lines together. -/
inductive Block where
  /-- A line outside fences and lists. -/
  | plain (l : Line)
  /-- A fenced block: the marker that opens it, and all lines up to the next marker or, when there
  is none, to the end of the document. -/
  | fenced (opening : Line) (others : List Line)
  /-- A list: its first item, and the items and blank lines that continue it. -/
  | list (first : Line) (others : List Line)
  deriving DecidableEq

namespace Block

def firstLine : Block → Line
  | plain l => l
  | fenced opening _ => opening
  | list first _ => first

def lines : Block → List Line
  | plain l => [l]
  | fenced opening others => opening :: others
  | list first others => first :: others

/-- Cuts off the lines of a fenced block that follow its opening marker. -/
def splitFenced (ls : List Line) : List Line × List Line :=
  let inside := ls.takeWhile fun l => !l.isFenceMarker
  let outside := ls.dropWhile fun l => !l.isFenceMarker
  (inside ++ outside.take 1, outside.drop 1)

/-- Cuts off the lines that continue a list: items, and blank lines between items. -/
def splitList : List Line → List Line × List Line
  | [] => ([], [])
  | l :: rest =>
    if l.isListItem || l.isBlank then
      match splitList rest with
      | ([], others) => if l.isListItem then ([l], others) else ([], l :: rest)
      | (next :: more, others) => (l :: next :: more, others)
    else ([], l :: rest)

theorem splitFenced_append (ls : List Line) : (splitFenced ls).1 ++ (splitFenced ls).2 = ls := by
  simp only [splitFenced, List.append_assoc, List.take_append_drop,
    List.takeWhile_append_dropWhile]

theorem splitList_append (ls : List Line) : (splitList ls).1 ++ (splitList ls).2 = ls := by
  induction ls with
  | nil => rfl
  | cons l rest ih =>
    rw [splitList]
    split
    · split
      · rename_i others cut
        rw [cut] at ih
        split
        · simpa using ih
        · rfl
      · rename_i next more others cut
        rw [cut] at ih
        simpa using ih
    · rfl

theorem length_splitFenced (ls : List Line) : (splitFenced ls).2.length ≤ ls.length := by
  have whole := congrArg List.length (splitFenced_append ls)
  rw [List.length_append] at whole
  omega

theorem length_splitList (ls : List Line) : (splitList ls).2.length ≤ ls.length := by
  have whole := congrArg List.length (splitList_append ls)
  rw [List.length_append] at whole
  omega

/-- The blocks of a document. Lists count as blocks only when `lists` holds. -/
def ofLines (lists : Bool) : List Line → List Block
  | [] => []
  | l :: rest =>
    if l.isFenceMarker then
      .fenced l (splitFenced rest).1 :: ofLines lists (splitFenced rest).2
    else if lists && l.isListItem then
      .list l (splitList rest).1 :: ofLines lists (splitList rest).2
    else .plain l :: ofLines lists rest
termination_by ls => ls.length
decreasing_by
  · have := length_splitFenced rest
    simp only [List.length_cons]
    omega
  · have := length_splitList rest
    simp only [List.length_cons]
    omega
  · simp

theorem flatMap_lines_ofLines (lists : Bool) (ls : List Line) :
    (ofLines lists ls).flatMap lines = ls := by
  fun_induction ofLines lists ls with
  | case1 => rfl
  | case2 l rest _ ih => simp [lines, ih, splitFenced_append]
  | case3 l rest _ _ ih => simp [lines, ih, splitList_append]
  | case4 l rest _ _ ih => simp [lines, ih]

end Block
end MarkdownTidy
