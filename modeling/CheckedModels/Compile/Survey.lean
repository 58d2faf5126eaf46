import CheckedModels.Compile.Compose
import CheckedModels.Compile.Note

/-! Which declarations a compilation reaches, and in which order. A declaration is registered before
what it refers to. -/
namespace CheckedModels

/-- One thing to do: reach a declaration, look at a union member that was reached, or remark. -/
inductive Task where
  | reach (kind : DeclarationKind) (name : String)
  | member (name union : String)
  | remark (note : Note)
deriving Repr, DecidableEq

structure Survey where
  reached : Entries Declaration := []
  notes : List Note := []
deriving Repr, DecidableEq, Inhabited

namespace Scope

/-- What the type of a field asks for. -/
def fieldTask (s : Scope) (f : Field) : List Task :=
  if (s.resolve? f).isNone then [.remark (.droppedField f.name f.typeName)]
  else (f.request?.map fun (name, kind) => Task.reach kind name).toList

/-- An identifier field asks for nothing. -/
def ownTasks (s : Scope) (f : Field) : List Task :=
  if f.isIdentifierCandidate then [] else s.fieldTask f

/-- An interface is reached itself, and its fields once more on behalf of the model, unless the model
overrides them. -/
def interfaceTasks (s : Scope) (d : Declaration) (name : String) : List Task :=
  if (s.interface? name).isNone then [.remark (.unknownInterface d.name name)]
  else
    let own := (d.fields.filter s.keeps).map Field.name
    .reach .interface name ::
      (s.mergedFields name).flatMap fun f => if f.1 ∈ own then [] else s.ownTasks f.2

def memberTasks (s : Scope) (union name : String) : List Task :=
  if (s.declarations.findKind? .object name).isSome then [.reach .object name, .member name union]
  else [.remark (.skippedMember name union)]

def tasks (s : Scope) (d : Declaration) : List Task :=
  match d with
  | .union u => u.members.flatMap (s.memberTasks u.name)
  | d => d.fields.flatMap s.ownTasks ++ d.interfaces.flatMap (s.interfaceTasks d)

end Scope

namespace Survey

def names (v : Survey) : List String := v.reached.keys

def add (v : Survey) (d : Declaration) : Survey := { v with reached := v.reached ++ [(d.name, d)] }

def note (v : Survey) (n : Note) : Survey := { v with notes := v.notes ++ [n] }

def hasModel (v : Survey) (name : String) : Bool :=
  ((v.reached.lookup name).map Declaration.isModel).getD false

/-- The first declaration that comes to a name keeps it. -/
def run (s : Scope) (todo : List Task) (v : Survey) : Survey :=
  match todo with
  | [] => v
  | .remark n :: rest => run s rest (v.note n)
  | .member name union :: rest =>
    run s rest (if v.hasModel name then v else v.note (.skippedMember name union))
  | .reach kind name :: rest =>
    match _h : s.declarations.findKind? kind name with
    | none => run s rest v
    | some d =>
      if _new : d.name ∈ v.names then run s rest v
      else run s (s.tasks d ++ rest) (v.add d)
termination_by (unseen s.declarations.names v.names, todo.length)
decreasing_by
  · exact .right _ (by simp)
  · split <;> exact .right _ (by simp)
  · exact .right _ (by simp)
  · exact .right _ (by simp)
  · obtain ⟨mem, -⟩ := Declarations.findKind?_mem _h
    refine .left _ _ (unseen_lt ?_ (Declarations.mem_names mem) _new ?_) <;>
      simp [names, add, Entries.keys]

end Survey

end CheckedModels
