import CheckedModels.Compile.Compose
import CheckedModels.Compile.Workshop

/-! Compiling one declaration and what it refers to. A model or union is registered before it is
finished, so that what refers back to it finds it. -/
namespace CheckedModels

namespace Scope

section Parts

/- `reach` compiles the declaration of a name within one category, if there is one. -/
variable (s : Scope) (reach : DeclarationKind → String → Build (Option String))

/-- Compiles the declaration that the type of a field asks for. -/
def ask (f : Field) : Build (Option String) :=
  match f.request? with
  | none => return none
  | some (name, kind) => if s.follows kind then reach kind name else return none

/-- The type of a field is compiled before it is referred to. -/
def resolveField (f : Field) : Build (Option Descriptor) := do
  let asked ← s.ask reach f
  match f.resolve? fun _ _ => asked.map .named with
  | some d => return some d
  | none =>
    Build.remark (.droppedField f.name f.typeName)
    return none

def describe (c : Composition) (f : Field) : Build Composition :=
  if f.isIdentifierCandidate then return c.add f none
  else do
    let resolved ← s.resolveField reach f
    return c.add f resolved

/-- A field that the model overrides takes the model's own descriptor. -/
def inherit (own : Entries Descriptor) (c : Composition) (f : Field) : Build Composition :=
  match own.lookup f.name with
  | some d => return { c with properties := c.properties.put f.name d }
  | none => s.describe reach c f

/-- The interface may be unfinished itself, so its fields are taken from its declaration. -/
def implement (model : String) (own : Entries Descriptor) (c : Composition) (name : String) :
    Build Composition :=
  match s.interface? name with
  | none => do
    Build.remark (.unknownInterface model name)
    return c
  | some _ => do
    let _ ← reach .interface name
    (s.mergedFields name).foldlM (fun c e => s.inherit reach own c e.2) c

/-- Own fields come first to the identifier, and last to their keys. -/
def resolveProperties (choice : IdentifierChoice) (d : Declaration) : Build (Entries Descriptor) := do
  let own ← d.fields.foldlM (s.describe reach) ⟨⟨choice, none⟩, []⟩
  let inherited ← d.interfaces.foldlM (s.implement reach d.name own.properties) ⟨own.claim, []⟩
  return inherited.properties.putAll own.properties

def buildModel (choice : IdentifierChoice) (d : Declaration) : Build String := do
  let key ← Build.register d.name (.model { name := d.name })
  let properties ← s.resolveProperties reach choice d
  Build.finishModel key properties
  return key

/-- A member that is no object, or whose name something else has taken, is left out. -/
def memberModel? (member : String) : Build (Option String) := do
  match ← reach .object member with
  | none => return none
  | some key => return if ← Build.isModel key then some key else none

def addMember (union : String) (alternatives : List Descriptor) (member : String) :
    Build (List Descriptor) := do
  match ← memberModel? reach member with
  | some key => return alternatives ++ [.named key]
  | none =>
    Build.remark (.skippedMember member union)
    return alternatives

def resolveMembers (u : UnionDeclaration) : Build (List Descriptor) :=
  u.members.foldlM (addMember reach u.name) []

def buildUnion (u : UnionDeclaration) : Build String := do
  let key ← Build.register u.name (.union { declaredName := some u.name })
  let alternatives ← resolveMembers reach u
  Build.finishUnion key alternatives
  return key

def make (config : Config) (d : Declaration) : Build String :=
  match d with
  | .union u => buildUnion reach u
  | .enum e => Build.register e.name e.definition
  | .scalar e => Build.register e.name e.definition
  | d => s.buildModel reach (config.choice d.name) d

end Parts

def reachWith (s : Scope) (build : Declaration → Build String) (kind : DeclarationKind)
    (name : String) : Build (Option String) :=
  match s.declarations.findKind? kind name with
  | none => return none
  | some d => some <$> build d

/-- `depth` bounds how many declarations may be under way at once. Each has a name that no other has,
so there are never more than there are names. -/
def build (s : Scope) (config : Config) : Nat → Declaration → Build String
  | 0, d => Build.cached d.name (throw .tooDeep)
  | depth + 1, d => Build.cached d.name (s.make (s.reachWith (build s config depth)) config d)

end Scope

end CheckedModels
