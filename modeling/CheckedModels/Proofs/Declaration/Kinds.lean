import CheckedModels.Proofs.Compile.Lineage
import CheckedModels.Proofs.Declaration.Category
import CheckedModels.Proofs.Entries

/-! Looking up the kinds of fields changes nothing else: the same declarations are found, and the same
fields come from their interfaces, with their kinds filled in. -/
namespace CheckedModels

namespace Declarations

def resolve (ds : Declarations) : Declaration → Declaration
  | .object d => .object (ds.resolveRecord d)
  | .input d => .input (ds.resolveInput d)
  | .interface d => .interface (ds.resolveRecord d)
  | d => d

variable (ds : Declarations)

@[simp] theorem name_resolve (d : Declaration) : (ds.resolve d).name = d.name := by
  cases d <;> rfl

@[simp] theorem kind_resolve (d : Declaration) : (ds.resolve d).kind = d.kind := by
  cases d <;> rfl

@[simp] theorem isModel_resolve (d : Declaration) : (ds.resolve d).isModel = d.isModel := by
  cases d <;> rfl

@[simp] theorem interfaces_resolve (d : Declaration) : (ds.resolve d).interfaces = d.interfaces := by
  cases d <;> rfl

@[simp] theorem fields_resolve (d : Declaration) :
    (ds.resolve d).fields = d.fields.map ds.resolveField := by
  cases d <;> rfl

@[simp] theorem name_resolveField (f : Field) : (ds.resolveField f).name = f.name := by
  unfold resolveField
  split <;> rfl

@[simp] theorem type_resolveField (f : Field) : (ds.resolveField f).type = f.type := by
  unfold resolveField
  split <;> rfl

theorem category_resolveKinds (k : DeclarationKind) :
    ds.resolveKinds.category k = (ds.category k).map ds.resolve := by
  cases k <;> simp [category, resolveKinds, resolve]

variable {ds} in
theorem mem_all_resolveKinds_iff {e : Declaration} :
    e ∈ ds.resolveKinds.all ↔ ∃ d ∈ ds.all, ds.resolve d = e := by
  rw [mem_all_iff, category_resolveKinds, List.mem_map]
  constructor
  · rintro ⟨d, hd, rfl⟩
    rw [kind_resolve] at hd
    exact ⟨d, mem_all_iff.mpr hd, rfl⟩
  · rintro ⟨d, hd, rfl⟩
    rw [kind_resolve]
    exact ⟨d, mem_all_iff.mp hd, rfl⟩

theorem findKind?_resolveKinds (k : DeclarationKind) (name : String) :
    ds.resolveKinds.findKind? k name = (ds.findKind? k name).map ds.resolve := by
  rw [findKind?_eq, findKind?_eq, category_resolveKinds, List.find?_map]
  congr 2
  funext d
  simp

theorem interface?_resolveKinds (name : String) :
    Scope.interface? { declarations := ds.resolveKinds } name =
      (Scope.interface? { declarations := ds } name).map ds.resolveRecord := by
  unfold Scope.interface?
  simp only [findKind?_resolveKinds]
  cases ds.findKind? .interface name with
  | none => rfl
  | some d => cases d <;> rfl

/-- The same step, past the declaration with its kinds filled in. -/
private def walk : Scope.Walk → Scope.Walk
  | .enter name => .enter name
  | .leave d => .leave (ds.resolveRecord d)

private theorem map_walk_enter (names : List String) :
    (names.map Scope.Walk.enter).map ds.walk = names.map .enter := by
  rw [List.map_map]
  rfl

theorem lineageFrom_resolveKinds (steps : List Scope.Walk) (seen : List String) :
    Scope.lineageFrom { declarations := ds.resolveKinds } (steps.map ds.walk) seen =
      (Scope.lineageFrom { declarations := ds } steps seen).map ds.resolveRecord := by
  induction steps, seen using Scope.lineageFrom.induct (s := { declarations := ds }) with
  | case1 seen =>
    rw [List.map_nil, Scope.lineageFrom, Scope.lineageFrom]
    rfl
  | case2 seen d rest ih =>
    rw [List.map_cons, walk, Scope.lineageFrom, Scope.lineageFrom, ih]
    rfl
  | case3 seen name rest found ih =>
    have hfound : Scope.interface? { declarations := ds.resolveKinds } name = none := by
      rw [interface?_resolveKinds, found]
      rfl
    rw [List.map_cons, walk, Scope.lineageFrom_unknown hfound, Scope.lineageFrom_unknown found, ih]
  | case4 seen name rest d found mem ih =>
    have hfound : Scope.interface? { declarations := ds.resolveKinds } name =
        some (ds.resolveRecord d) := by
      rw [interface?_resolveKinds, found]
      rfl
    rw [List.map_cons, walk, Scope.lineageFrom_seen hfound mem, Scope.lineageFrom_seen found mem, ih]
  | case5 seen name rest d found new ih =>
    have hfound : Scope.interface? { declarations := ds.resolveKinds } name =
        some (ds.resolveRecord d) := by
      rw [interface?_resolveKinds, found]
      rfl
    rw [List.map_cons, walk, Scope.lineageFrom_new hfound new, Scope.lineageFrom_new found new, ← ih,
      List.map_append, List.map_cons, map_walk_enter]
    rfl

theorem mergedFields_resolveKinds (name : String) :
    Scope.mergedFields { declarations := ds.resolveKinds } name =
      (Scope.mergedFields { declarations := ds } name).map fun e => (e.1, ds.resolveField e.2) := by
  have hlineage := ds.lineageFrom_resolveKinds [.enter name] []
  rw [List.map_singleton, walk] at hlineage
  unfold Scope.mergedFields Scope.lineage
  rw [hlineage, ← Entries.ofPairs_map, List.flatMap_map, List.map_flatMap]
  simp [resolveRecord, Function.comp_def]

end Declarations

end CheckedModels
