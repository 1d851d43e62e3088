import MarkdownTidy.Line.Edit
import MarkdownTidy.Text.Occurrence

namespace MarkdownTidy

namespace Url

def schemes : List String :=
  ["https://", "http://"]

/-- After the scheme a URL runs up to white space or a closing bracket. -/
def isBodyChar (c : Char) : Bool :=
  !(isSpace c || c == ')' || c == '>')

/-- Right after one of these a URL is taken to be delimited already. -/
def isOpener (c : Char) : Bool :=
  c == '<' || c == '('

def isCloser (c : Char) : Bool :=
  c == ')' || c == '>'

/-- The body of a URL at the start of a text. One that runs into a closing bracket gives up its
last character, so that no bracket follows it. -/
def body (t : Text) : Text :=
  let run := t.takeWhile isBodyChar
  if (t.dropWhile isBodyChar).head?.any isCloser then run.dropLast else run

/-- The bare URL at the start of a text that stands after the character `before`. A scheme
with nothing behind it is none. -/
def read? (before : Option Char) (t : Text) : Option Text :=
  if before.any isOpener then none
  else
    match schemes.find? fun scheme => scheme.toList.isPrefixOf t with
    | none => none
    | some scheme =>
      let rest := body (t.drop scheme.toList.length)
      if rest.isEmpty then none else some (scheme.toList ++ rest)

/-- A part of a line: one character outside bare URLs, or a bare URL. -/
inductive Piece where
  | plain (c : Char)
  | url (u : Text)
  deriving DecidableEq

namespace Piece

def isUrl : Piece → Bool
  | plain _ => false
  | url _ => true

/-- The part as it stands in the line. -/
def text : Piece → Text
  | plain c => [c]
  | url u => u

/-- The part with angle brackets around a URL. -/
def wrapped : Piece → Text
  | plain c => [c]
  | url u => '<' :: u ++ ['>']

end Piece

/-- Cuts a text that stands after the character `before` into its parts, from left to right. After
a URL the search goes on at its end. -/
def pieces (before : Option Char) : Text → List Piece
  | [] => []
  | c :: rest =>
    match read? before (c :: rest) with
    | none => .plain c :: pieces (some c) rest
    | some u => .url u :: pieces u.getLast? (rest.drop (u.length - 1))
termination_by t => t.length
decreasing_by
  · simp
  · simp only [List.length_drop, List.length_cons]
    omega

theorem body_prefix (t : Text) : body t <+: t := by
  unfold body
  split
  · exact (List.dropLast_prefix _).trans (List.takeWhile_prefix _)
  · exact List.takeWhile_prefix _

theorem read?_eq_some {before : Option Char} {t u : Text} (found : read? before t = some u) :
    ∃ scheme ∈ schemes, scheme.toList <+: t ∧ u = scheme.toList ++ body (t.drop scheme.toList.length) ∧
      body (t.drop scheme.toList.length) ≠ [] := by
  unfold read? at found
  split at found
  · contradiction
  · split at found
    · contradiction
    · rename_i scheme known
      have start := List.find?_some known
      dsimp only at found
      split at found
      · contradiction
      · rename_i something
        cases found
        exact ⟨scheme, List.mem_of_find?_eq_some known, List.isPrefixOf_iff_prefix.mp start, rfl,
          fun empty => something (by simp [empty])⟩

/-- A bare URL is a start of the text in which it is found, and it holds something. -/
theorem read?_prefix {before : Option Char} {t u : Text} (found : read? before t = some u) :
    u ≠ [] ∧ u <+: t := by
  obtain ⟨scheme, -, ⟨rest, whole⟩, rfl, something⟩ := read?_eq_some found
  refine ⟨List.append_ne_nil_of_right_ne_nil _ something, ?_⟩
  rw [← whole, List.drop_left, List.prefix_append_right_inj]
  exact body_prefix rest

/-- Cutting a text into parts loses nothing of it. -/
theorem flatMap_text_pieces (before : Option Char) (t : Text) :
    (pieces before t).flatMap Piece.text = t := by
  fun_induction pieces before t with
  | case1 => rfl
  | case2 before c rest _ ih => simp [Piece.text, ih]
  | case3 before c rest u found ih =>
    obtain ⟨something, more, whole⟩ := read?_prefix found
    cases u with
    | nil => contradiction
    | cons first others =>
      obtain ⟨rfl, rfl⟩ := List.cons.inj whole
      simpa [Piece.text] using ih

end Url

namespace Line

/-- Whether the line holds a Markdown link whose target is a web address. -/
def hasHttpLink (l : Line) : Bool :=
  match l.dropWhile (· != '[') with
  | [] => false
  | _ :: rest => Text.occursIn "](http".toList rest

/-- Whether the line is searched for bare URLs at all. One link or autolink in it leaves the whole
line alone. -/
def isUrlSearched (l : Line) : Bool :=
  Text.occursIn "http".toList l && !(l.hasHttpLink || Text.occursIn "<http".toList l)

/-- Puts angle brackets around the bare URLs of a line. -/
def wrapUrls : Edit := fun l =>
  if l.isUrlSearched then
    let pieces := Url.pieces none l
    let found := pieces.countP Url.Piece.isUrl
    if found = 0 then none else some { line := pieces.flatMap Url.Piece.wrapped, fixes := found }
  else none

end Line
end MarkdownTidy
