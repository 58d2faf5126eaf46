import CheckedModels.Descriptor.Basic

/-! Definitions by key, in the order in which they were registered. -/
namespace CheckedModels

structure Registry where
  entries : Entries Definition := []
deriving Repr, DecidableEq, Inhabited

/-- Wrong use of definitions. -/
inductive DefinitionError where
  | alreadyRegistered (key : String)
  | sealedModel (name : String)
  | sealedUnion (name : String)
  | sealedEndlessUnion
  | manyIdentifiers (model : String) (keys : List String)
  | tooDeep
deriving Repr, DecidableEq

def DefinitionError.message : DefinitionError → String
  | alreadyRegistered key => s!"Type '{key}' is already registered"
  | sealedModel name => s!"Model '{name}' is sealed and cannot be redefined"
  | sealedUnion name => s!"Union '{name}' is sealed and cannot be redefined"
  | sealedEndlessUnion => "a union within itself is sealed and cannot be redefined"
  | manyIdentifiers model keys =>
    s!"Model '{model}' declares more than one identifier: " ++ ", ".intercalate keys
  | tooDeep => "declarations refer to each other without end"

namespace Registry

def keys (r : Registry) : List String := r.entries.keys

def find? (r : Registry) (key : String) : Option Definition := r.entries.lookup key

def model? (r : Registry) (key : String) : Option Model :=
  match r.find? key with
  | some (.model m) => some m
  | _ => none

def register (r : Registry) (key : String) (d : Definition) : Except DefinitionError Registry :=
  if key ∈ r.keys then throw (.alreadyRegistered key)
  else return ⟨r.entries ++ [(key, d)]⟩

def replace (r : Registry) (key : String) (d : Definition) : Registry := ⟨r.entries.put key d⟩

end Registry

/-- Gives a model its properties, of which at most one may be an identifier. -/
def Model.define (m : Model) (properties : Entries Descriptor) : Except DefinitionError Model :=
  if m.isSealed then throw (.sealedModel m.name)
  else
    let ids := Model.identifierKeys properties
    if 1 < ids.length then throw (.manyIdentifiers m.name ids)
    else return { m with properties := properties }

/-- From now on nothing changes. -/
def Model.seal (m : Model) : Model := { m with isSealed := true }

/-- `name` is the name of the union as it stands, if that is finite. -/
def Union.define (u : Union) (name : Option String) (alternatives : List Descriptor) :
    Except DefinitionError Union :=
  if u.isSealed then throw ((name.map .sealedUnion).getD .sealedEndlessUnion)
  else return { u with alternatives := alternatives }

def Union.seal (u : Union) : Union := { u with isSealed := true }

end CheckedModels
