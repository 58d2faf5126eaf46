import CheckedModels.Entries
import CheckedModels.Text.Basic

/-! Plain data: the values of a JSON document. -/
namespace CheckedModels

/-- Integers and doubles are told apart, and members keep their order. -/
inductive Json where
  | null
  | bool (b : Bool)
  | int (n : Int)
  | float (x : Float)
  | str (s : Text)
  | arr (items : List Json)
  | obj (members : List (Text × Json))
deriving Inhabited

namespace Json

abbrev Members := List (Text × Json)

/-- The value of the member of a name. -/
def under? (members : Members) (name : String) : Option Json :=
  members.lookup (Text.whole name)

/-- An object whose members have names without halves of surrogate pairs. -/
def record (members : Entries Json) : Json := obj (members.map fun e => (.whole e.1, e.2))

/-- The value of a member, when the document is an object that has it. -/
def member? (j : Json) (name : String) : Option Json :=
  match j with
  | .obj members => under? members name
  | _ => none

end Json

end CheckedModels
