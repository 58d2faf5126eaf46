import CheckedModels.Registry.Basic

/-! The printed names of descriptors. -/
namespace CheckedModels

/-- `named` prints what a key refers to. -/
def Descriptor.nameWith (named : String → String) : Descriptor → String
  | .basic b => b.name
  | .maybeNull inner => "(" ++ inner.nameWith named ++ " | null)"
  | .array item => item.nameWith named ++ "[]"
  | .map item => "Map<string, " ++ item.nameWith named ++ ">"
  | .named key => named key

/-- The key whose name is part of a descriptor's name. -/
def Descriptor.key? : Descriptor → Option String
  | .basic _ => none
  | .maybeNull inner | .array inner | .map inner => inner.key?
  | .named key => some key

namespace Registry

/-- Unions may hold each other as deep as there are definitions; a union within itself has no finite
name, and an ellipsis stands for its inner part. -/
def keyName (r : Registry) : Nat → String → String
  | 0, _ => "..."
  | depth + 1, key =>
    match r.find? key with
    | some (.basic b) => b.name
    | some (.enumeration e) => e.name
    | some (.model m) => m.name
    | some (.union u) =>
      "(" ++ " | ".intercalate (u.alternatives.map (Descriptor.nameWith (keyName r depth))) ++ ")"
    | none => key

def typeName (r : Registry) (d : Descriptor) : String :=
  d.nameWith (r.keyName (r.entries.length + 1))

/-- Whether no union within itself is part of a name. -/
def keyEnds (r : Registry) : Nat → String → Bool
  | 0, _ => false
  | depth + 1, key =>
    match r.find? key with
    | some (.union u) => u.alternatives.all fun d => d.key?.all (keyEnds r depth)
    | _ => true

def nameEnds (r : Registry) (d : Descriptor) : Bool := d.key?.all (r.keyEnds (r.entries.length + 1))

/-- The name of a descriptor, if that is finite. -/
def typeName? (r : Registry) (d : Descriptor) : Option String :=
  if r.nameEnds d then some (r.typeName d) else none

def defineModel (r : Registry) (key : String) (m : Model) (properties : Entries Descriptor) :
    Except DefinitionError Registry :=
  return r.replace key (.model (← m.define properties))

def defineUnion (r : Registry) (key : String) (u : Union) (alternatives : List Descriptor) :
    Except DefinitionError Registry :=
  return r.replace key (.union (← u.define (r.typeName? (.named key)) alternatives))

end Registry

end CheckedModels
