import CheckedModels.Entries

/-! What a value may be. Models, unions and enumerations are definitions of their own, which a
descriptor refers to by key. -/
namespace CheckedModels

inductive Basic where
  | string
  | number
  | boolean
  | identifier
  | frozen
deriving Repr, DecidableEq, Inhabited

def Basic.name : Basic → String
  | string => "string"
  | number => "number"
  | boolean => "boolean"
  | identifier => "identifier"
  | frozen => "frozen"

inductive Descriptor where
  | basic (b : Basic)
  | maybeNull (inner : Descriptor)
  | array (item : Descriptor)
  | map (item : Descriptor)
  | named (key : String)
deriving Repr, DecidableEq, Inhabited

namespace Descriptor

@[match_pattern] abbrev string : Descriptor := basic .string
@[match_pattern] abbrev number : Descriptor := basic .number
@[match_pattern] abbrev boolean : Descriptor := basic .boolean
@[match_pattern] abbrev identifier : Descriptor := basic .identifier

def isIdentifier (d : Descriptor) : Bool := d == identifier

def isMaybeNull : Descriptor → Bool
  | maybeNull _ => true
  | _ => false

/-- What is left without null and array layers. -/
def core : Descriptor → Descriptor
  | maybeNull inner => inner.core
  | array item => item.core
  | d => d

end Descriptor

/-- A named record. Properties may be given until the model is sealed. -/
structure Model where
  name : String
  properties : Entries Descriptor := []
  isSealed : Bool := false
deriving Repr, DecidableEq, Inhabited

/-- The name of a union is written from its alternatives; a declaration gives it another. -/
structure Union where
  declaredName : Option String := none
  alternatives : List Descriptor := []
  isSealed : Bool := false
deriving Repr, DecidableEq, Inhabited

structure Enumeration where
  name : String
  values : List String
deriving Repr, DecidableEq, Inhabited

inductive Definition where
  | basic (b : Basic)
  | enumeration (e : Enumeration)
  | model (m : Model)
  | union (u : Union)
deriving Repr, DecidableEq, Inhabited

namespace Model

def identifierKeys (properties : Entries Descriptor) : List String :=
  (properties.filter fun p => p.2.isIdentifier).map Prod.fst

/-- The property that tells the instances of a collection apart. -/
def identifier? (m : Model) : Option String := (identifierKeys m.properties).head?

end Model

end CheckedModels
