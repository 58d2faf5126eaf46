import CheckedModels.Compile.Note
import CheckedModels.Registry.Build
import CheckedModels.Registry.TypeName

/-! A compilation under way: the definitions made so far, each under a key of its own, and the names
that they are registered under. -/
namespace CheckedModels

structure Workshop where
  made : Registry := {}
  names : Entries String := []
  notes : List Note := []
deriving Repr, DecidableEq, Inhabited

abbrev Build := StateT Workshop (Except DefinitionError)

namespace Build

def remark (n : Note) : Build Unit := modify fun w => { w with notes := w.notes ++ [n] }

/-- Makes a definition, finished or not, and registers it under its name. -/
def register (name : String) (d : Definition) : Build String := fun w =>
  if name ∈ w.names.keys then throw (.alreadyRegistered name)
  else
    let key := w.made.freshKey name
    return (key, { w with made := (w.made.introduce name d).1, names := w.names ++ [(name, key)] })

/-- What is registered under a name already, or else what is made now. -/
def cached (name : String) (make : Build String) : Build String := fun w =>
  match w.names.lookup name with
  | some key => return (key, w)
  | none => make w

/-- Gives an open model its properties and seals it. -/
def finishModel (key : String) (properties : Entries Descriptor) : Build Unit := fun w =>
  match w.made.find? key with
  | some (.model m) => do
    let m ← m.define properties
    return ((), { w with made := w.made.replace key (.model m.seal) })
  | _ => return ((), w)

/-- Gives an open union its alternatives and seals it. -/
def finishUnion (key : String) (alternatives : List Descriptor) : Build Unit := fun w =>
  match w.made.find? key with
  | some (.union u) => do
    let u ← u.define (w.made.typeName? (.named key)) alternatives
    return ((), { w with made := w.made.replace key (.union u.seal) })
  | _ => return ((), w)

def isModel (key : String) : Build Bool := fun w => return ((w.made.model? key).isSome, w)

end Build

def Descriptor.rename (f : String → String) : Descriptor → Descriptor
  | .basic b => .basic b
  | .maybeNull inner => .maybeNull (inner.rename f)
  | .array item => .array (item.rename f)
  | .map item => .map (item.rename f)
  | .named key => .named (f key)

def Definition.rename (f : String → String) : Definition → Definition
  | .model m => .model { m with properties := m.properties.map fun p => (p.1, p.2.rename f) }
  | .union u => .union { u with alternatives := u.alternatives.map (Descriptor.rename f) }
  | d => d

namespace Workshop

/-- The name that a key is registered under. A key that is not registered stands for itself. -/
def nameOf (w : Workshop) (key : String) : String :=
  ((w.names.find? fun e => e.2 == key).map Prod.fst).getD key

/-- What is registered, with names in the place of keys. -/
def published (w : Workshop) : Registry :=
  ⟨w.names.filterMap fun e => (w.made.find? e.2).map fun d => (e.1, d.rename w.nameOf)⟩

end Workshop

end CheckedModels
