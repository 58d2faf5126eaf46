import CheckedModels.Conversion.Outcome
import CheckedModels.Value.Attribute
import CheckedModels.Value.Literal

/-! Instances of one model under string keys. -/
namespace CheckedModels.Collection

def identifierOf? (name : String) (v : Value) : Option Text :=
  match v.attribute? name with
  | some (.scalar (.str key)) => some key
  | _ => none

/-- An instance goes under its own identifier if it has one, and the key it was given has to agree.
Otherwise it goes under that key. -/
def entryKey (own : Option Text) (given : Option Scalar) : Except Failure Text :=
  match own, given with
  | some id, none | some id, some .null => .ok id
  | some id, some (.str key) =>
    if key = id then .ok id else Outcome.reject (.keyMismatch (Text.quoted key) (Text.quoted id))
  | some id, some key => Outcome.reject (.keyMismatch key.literal (Text.quoted id))
  | none, some (.str key) => .ok key
  | none, key => Outcome.reject (.mapKeyNotString (key.getD .null).literal)

/-- Takes the entries one by one and stops at the first that fails. -/
def index (name : Option String) (done : List (Text × Value)) :
    List (Option Scalar × Outcome) → Except Failure (List (Text × Value))
  | [] => .ok done
  | (given, part) :: rest => do
    let made ← part
    let key ← entryKey (name.bind (identifierOf? · made)) given
    if key ∈ done.map Prod.fst then Outcome.reject (.duplicateIdentifier (Text.quoted key))
    else index name (done ++ [(key, made)]) rest

def toDict (entries : List (Text × Value)) : Value := .dict (entries.map fun e => (.str e.1, e.2))

end CheckedModels.Collection
