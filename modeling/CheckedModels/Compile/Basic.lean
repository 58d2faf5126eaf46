import CheckedModels.Compile.Descent
import CheckedModels.Compile.Survey

/-! Compiling the declarations of a schema into a registry of definitions. -/
namespace CheckedModels

structure Compilation where
  registry : Registry
  notes : List Note
deriving Repr, DecidableEq

namespace Declarations

/-- Interfaces and scalars are compiled only where something refers to them. -/
def roots (ds : Declarations) : List Declaration :=
  ds.inputs.map .input ++ ds.objects.map .object ++ ds.unions.map .union ++ ds.enums.map .enum

def assemble (ds : Declarations) (config : Config) : Build Unit :=
  ds.roots.forM fun d => discard (Scope.build { declarations := ds } config ds.names.length d)

/-- Kinds that are still unknown are looked up first. -/
def compile (ds : Declarations) (config : Config) : Except DefinitionError Compilation := do
  let ((), w) ← (ds.resolveKinds.assemble config).run {}
  return ⟨w.published, w.notes ++ [.compiled w.names.length]⟩

end Declarations

namespace Survey

/-- Members that are models, by name. -/
def alternatives (v : Survey) (s : Scope) (u : UnionDeclaration) : List Descriptor :=
  (u.members.filter fun m => (s.declarations.findKind? .object m).isSome && v.hasModel m).map .named

/-- What the roots of a schema lead to. -/
def ofRoots (s : Scope) : Survey :=
  run s (s.declarations.roots.map fun d => .reach d.kind d.name) {}

end Survey

end CheckedModels
