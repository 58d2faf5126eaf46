import CheckedModels.Declaration.Basic
import CheckedModels.Registry.Basic

/-! Definitions of single declarations. A name that is registered already keeps its definition. -/
namespace CheckedModels

def EnumDeclaration.definition (e : EnumDeclaration) : Definition :=
  .enumeration ⟨e.name, e.values⟩

/-- A scalar of the schema's own may be anything. -/
def ScalarDeclaration.definition (_ : ScalarDeclaration) : Definition := .basic .frozen

def UnionDeclaration.definition (u : UnionDeclaration) (alternatives : List Descriptor) :
    Definition :=
  .union { declaredName := some u.name, alternatives := alternatives, isSealed := true }

namespace Registry

def ensure (r : Registry) (key : String) (d : Definition) : Registry :=
  if key ∈ r.keys then r else ⟨r.entries ++ [(key, d)]⟩

def buildEnum (r : Registry) (e : EnumDeclaration) : Registry := r.ensure e.name e.definition

def buildScalar (r : Registry) (s : ScalarDeclaration) : Registry := r.ensure s.name s.definition

/-- Members that are registered as models are the alternatives; the others are left out. -/
def buildUnion (r : Registry) (u : UnionDeclaration) : Registry :=
  r.ensure u.name
    (u.definition ((u.members.filter fun m => (r.model? m).isSome).map .named))

def numberedKey (name : String) (n : Nat) : String := name ++ "#" ++ toString n

/-- A key for one more definition; the count of definitions keeps it apart from all others. -/
def freshKey (r : Registry) (name : String) : String := numberedKey name r.entries.length

/-- Registers a definition that is referred to by itself and not by its name. -/
def introduce (r : Registry) (name : String) (d : Definition) : Registry × Descriptor :=
  (r.ensure (r.freshKey name) d, .named (r.freshKey name))

end Registry

end CheckedModels
