import CheckedModels.Declaration.Basic

/-! Looking up what the named type of each field is. -/
namespace CheckedModels

/-- The scalars that need no declaration. -/
def builtinKind? : String → Option ReferencedKind
  | "String" | "Int" | "Float" | "Boolean" => some .primitive
  | "ID" => some .identifier
  | _ => none

namespace Declarations

/-- A built-in name hides a declaration of the same name. -/
def kindOf (ds : Declarations) (name : String) : ReferencedKind :=
  match builtinKind? name with
  | some kind => kind
  | none =>
    match ds.find? name with
    | some d => d.kind.toReferenced
    | none => .unknown

/-- A kind that is known already is kept. -/
def resolveField (ds : Declarations) (f : Field) : Field :=
  if f.kind = .unknown then { f with kind := ds.kindOf f.typeName } else f

def resolveRecord (ds : Declarations) (d : RecordDeclaration) : RecordDeclaration :=
  { d with fields := d.fields.map ds.resolveField }

def resolveInput (ds : Declarations) (d : InputDeclaration) : InputDeclaration :=
  { d with fields := d.fields.map ds.resolveField }

def resolveKinds (ds : Declarations) : Declarations :=
  { ds with
    objects := ds.objects.map ds.resolveRecord
    inputs := ds.inputs.map ds.resolveInput
    interfaces := ds.interfaces.map ds.resolveRecord }

end Declarations

end CheckedModels
