namespace MarkdownTidy

/-- A JSON value. A number is its digits and how many of them stand behind the point, so that
`1.0` is not the same as `1`. -/
inductive Json where
  | null
  | bool (value : Bool)
  | number (digits : Int) (places : Nat)
  | string (text : String)
  | array (items : List Json)
  | object (members : List (String × Json))
  deriving Inhabited

namespace Json

def nat (n : Nat) : Json :=
  .number n 0

/-- The values of a record: those of an object's members with the given names, or the items of an
array with as many. Members of other names do not matter. -/
def fields? (names : List String) : Json → Option (List Json)
  | object members => names.mapM fun name => members.lookup name
  | array items => if items.length = names.length then some items else none
  | _ => none

end Json
end MarkdownTidy
