import CheckedModels.Declaration.Kinds
import CheckedModels.Descriptor.Basic

/-! Which descriptor the type of a field stands for. -/
namespace CheckedModels

/-- The declarations of a schema, and the kinds of them that a field may refer to. -/
structure Scope where
  declarations : Declarations
  follows : DeclarationKind → Bool := fun _ => true

def builtin? : String → Option Descriptor
  | "String" | "ID" => some .string
  | "Int" | "Float" => some .number
  | "Boolean" => some .boolean
  | _ => none

/-- Each list position becomes an array, and each position without a non-null mark may be null.
Repeated marks count once. -/
def TypeRef.wrap (base : Descriptor) (nullable : Bool) : TypeRef → Descriptor
  | .nonNull inner => inner.wrap base false
  | .list item =>
    let d := Descriptor.array (item.wrap base true)
    if nullable then .maybeNull d else d
  | .named _ => if nullable then .maybeNull base else base

namespace Field

/-- The declaration that a field asks for, when its type is not built in. -/
def request? (f : Field) : Option (String × DeclarationKind) :=
  f.kind.declared?.map fun kind => (f.typeName, kind)

def base? (named : String → DeclarationKind → Option Descriptor) (f : Field) : Option Descriptor :=
  match f.kind with
  | .primitive | .identifier => builtin? f.typeName
  | _ => f.request?.bind fun (name, kind) => named name kind

/-- A field whose type cannot be resolved is dropped. -/
def resolve? (named : String → DeclarationKind → Option Descriptor) (f : Field) :
    Option Descriptor :=
  (f.base? named).map fun base => f.type.wrap base true

/-- What an identifier field is when it is not the identifier. -/
def plainIdentifier (f : Field) : Descriptor :=
  if f.isRequired then .string else .maybeNull .string

end Field

namespace Scope

/-- Types are referred to by their declared names. -/
def named? (s : Scope) (name : String) (kind : DeclarationKind) : Option Descriptor :=
  if s.follows kind && (s.declarations.findKind? kind name).isSome then some (.named name) else none

def resolve? (s : Scope) (f : Field) : Option Descriptor := f.resolve? s.named?

def keeps (s : Scope) (f : Field) : Bool := f.isIdentifierCandidate || (s.resolve? f).isSome

def interface? (s : Scope) (name : String) : Option RecordDeclaration :=
  match s.declarations.findKind? .interface name with
  | some (.interface d) => some d
  | _ => none

end Scope

end CheckedModels
