import CheckedModels.Compile.Scope
import CheckedModels.Compile.Unseen

/-! The interfaces that an interface implements, directly or through others, and the fields that come
from them. -/
namespace CheckedModels

namespace Declarations

def names (ds : Declarations) : List String := ds.all.map Declaration.name

theorem mem_names {ds : Declarations} {d : Declaration} (h : d ∈ ds.all) : d.name ∈ ds.names :=
  List.mem_map_of_mem h

end Declarations

namespace Scope

theorem name_of_interface? {s : Scope} {name : String} {d : RecordDeclaration}
    (h : s.interface? name = some d) : d.name = name ∧ name ∈ s.declarations.names := by
  unfold interface? at h
  split at h
  next d' found =>
    obtain rfl := Option.some.inj h
    obtain ⟨mem, name_eq, -⟩ := Declarations.findKind?_mem found
    exact ⟨name_eq, name_eq ▸ Declarations.mem_names mem⟩
  next => simp at h

/-- A step of the walk through interfaces: to enter one by name, or to leave one whose own
interfaces are done. -/
inductive Walk where
  | enter (name : String)
  | leave (d : RecordDeclaration)

/-- Each interface comes after the interfaces it implements, unless they lead back to it. No
interface comes twice. -/
def lineageFrom (s : Scope) (steps : List Walk) (seen : List String) : List RecordDeclaration :=
  match steps with
  | [] => []
  | .leave d :: rest => d :: lineageFrom s rest seen
  | .enter name :: rest =>
    match _h : s.interface? name with
    | none => lineageFrom s rest seen
    | some d =>
      if _new : d.name ∈ seen then lineageFrom s rest seen
      else
        lineageFrom s (d.interfaces.map .enter ++ .leave d :: rest) (d.name :: seen)
termination_by (unseen s.declarations.names seen, steps.length)
decreasing_by
  · exact .right _ (by simp)
  · exact .right _ (by simp)
  · exact .right _ (by simp)
  · obtain ⟨name_eq, mem⟩ := name_of_interface? _h
    exact .left _ _ (unseen_lt (fun _ => List.mem_cons_of_mem _) (name_eq ▸ mem) _new (by simp))

def lineage (s : Scope) (name : String) : List RecordDeclaration :=
  s.lineageFrom [.enter name] []

/-- The fields of an interface and of those it implements. The later declaration of a name wins and
the earlier one gives its place. -/
def mergedFields (s : Scope) (name : String) : Entries Field :=
  Entries.ofPairs ((s.lineage name).flatMap fun d => d.fields.map fun f => (f.name, f))

end Scope

end CheckedModels
