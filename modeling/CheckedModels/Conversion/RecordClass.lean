import CheckedModels.Conversion.Outcome
import CheckedModels.Descriptor.Basic
import CheckedModels.Value.AttributeName
import CheckedModels.Value.Literal

/-! The class of a model. Its fields are named by attributes, and data gives them by the names that the
schema has for them. -/
namespace CheckedModels

/-- A field is given under another name only where it cannot be called as in the schema. -/
structure ClassField where
  name : String
  givenAs : Option String := none
  type : Descriptor
  fallback : Option Value := none

namespace ClassField

/-- The key under which data gives the field. -/
def key (f : ClassField) : String := f.givenAs.getD f.name

/-- What a field is that is left out. -/
def omitted (f : ClassField) : Outcome :=
  match f.fallback with
  | some v => .ok v
  | none => Outcome.reject .missing

end ClassField

/-- `attributes` are the attributes by the names of the schema. -/
structure RecordClass where
  name : String
  fields : List ClassField := []
  attributes : Entries String := []

/-- The place of an entry that is none of a model's properties. -/
def Scalar.step : Scalar → Step
  | .str s => .key s.visible
  | .bool b => .index (if b then 1 else 0)
  | .int n =>
    if -0x8000000000000000 ≤ n && n < 0x8000000000000000 then .index n
    else .key ((Decimal.integerText? n).getD "<unprintable int object>")
  | s => .key s.literal

namespace RecordClass

/-- Entries that give no field are not permitted. -/
def strays (c : RecordClass) (entries : List (Scalar × Value)) : List (Step × Outcome) :=
  entries.filterMap fun (key, _) =>
    match key with
    | .str (.whole name) =>
      if name ∈ c.fields.map ClassField.key then none
      else some (.key name, Outcome.reject .extraKey)
    | _ => some (key.step, Outcome.reject .keyNotString)

/-- Of keys with broken text nothing else is said. -/
def settle (entries : List (Scalar × Value)) (parts : Except Failure (List Value)) :
    Except Failure (List Value) :=
  match parts with
  | .error (.broken fault) => Outcome.broken fault
  | parts =>
    if entries.any fun e => e.1.isBroken then Outcome.reject .notText else parts

/-- A new instance, with the value of each field. -/
def build (c : RecordClass) (key : String) (parts : List Value) : Value :=
  .instance none key c.name c.attributes ((c.fields.map ClassField.name).zip parts)

end RecordClass

namespace Model

/-- Why the model cannot be used yet, or at all. -/
def fault? (m : Model) : Option Fault :=
  if !m.isSealed then some (.unsealed m.name)
  else if m.name.contains '\x00' then some .nullInName
  else none

def attributeName (m : Model) (key : String) : String := AttributeName.ofKey m.properties.keys key

/-- The attribute by which the instances of a collection are told apart. -/
def identifierName? (m : Model) : Option String := m.identifier?.map m.attributeName

/-- A property that may be null is null when it is left out. -/
def field (m : Model) (p : String × Descriptor) : ClassField where
  name := m.attributeName p.1
  givenAs := if m.attributeName p.1 = p.1 then none else some p.1
  type := p.2
  fallback := if p.2.isMaybeNull then some .null else none

def toClass (m : Model) : RecordClass where
  name := m.name
  fields := m.properties.map m.field
  attributes := AttributeName.ofKeys m.properties.keys

end Model

end CheckedModels
