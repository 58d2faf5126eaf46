import CheckedModels.Compile.Lineage
import CheckedModels.Config.Basic

/-! The properties of a model: fields of its interfaces first, then its own, which win over fields of
the same name. -/
namespace CheckedModels

/-- Which field of the model at hand is the identifier so far. -/
structure Claim where
  choice : IdentifierChoice
  holder : Option String := none
deriving Repr, DecidableEq

/-- Gives the identifier to a field if it is free and the field is permitted. -/
def Claim.take (c : Claim) (name : String) : Bool × Claim :=
  match c.holder with
  | some holder => (holder == name, c)
  | none => if c.choice.permits name then (true, { c with holder := some name }) else (false, c)

def Claim.describe (c : Claim) (f : Field) : Descriptor × Claim :=
  match c.take f.name with
  | (true, c) => (.identifier, c)
  | (false, c) => (f.plainIdentifier, c)

/-- Properties found so far, and the claim on the identifier. -/
structure Composition where
  claim : Claim
  properties : Entries Descriptor := []
deriving Repr, DecidableEq

/-- Adds a field. `resolved` is what its type stands for, which a field that may be the identifier
does not need. -/
def Composition.add (c : Composition) (f : Field) (resolved : Option Descriptor) : Composition :=
  if f.isIdentifierCandidate then
    let (d, claim) := c.claim.describe f
    ⟨claim, c.properties.put f.name d⟩
  else
    match resolved with
    | some d => { c with properties := c.properties.put f.name d }
    | none => c

namespace Scope

def addField (s : Scope) (c : Composition) (f : Field) : Composition := c.add f (s.resolve? f)

def ownProperties (s : Scope) (choice : IdentifierChoice) (fields : List Field) : Composition :=
  fields.foldl s.addField ⟨⟨choice, none⟩, []⟩

/-- Adds a field of an interface. One that the model overrides takes the model's own descriptor and
leaves the identifier alone. -/
def addInherited (s : Scope) (own : Entries Descriptor) (c : Composition) (f : Field) :
    Composition :=
  match own.lookup f.name with
  | some d => { c with properties := c.properties.put f.name d }
  | none => s.addField c f

def addInterface (s : Scope) (own : Entries Descriptor) (c : Composition) (name : String) :
    Composition :=
  if (s.interface? name).isSome then
    (s.mergedFields name).foldl (fun c f => s.addInherited own c f.2) c
  else c

def compose (s : Scope) (choice : IdentifierChoice) (d : Declaration) : Entries Descriptor :=
  let own := s.ownProperties choice d.fields
  let inherited := d.interfaces.foldl (s.addInterface own.properties) ⟨own.claim, []⟩
  inherited.properties.putAll own.properties

end Scope

end CheckedModels
