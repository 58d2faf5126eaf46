import CheckedModels.Compile.Basic
import CheckedModels.Declaration.Kinds
import Mathlib.Data.List.Find
import Mathlib.Data.List.Nodup

/-! Declarations by category. -/
namespace CheckedModels.Declarations

def category (ds : Declarations) : DeclarationKind → List Declaration
  | .object => ds.objects.map .object
  | .input => ds.inputs.map .input
  | .interface => ds.interfaces.map .interface
  | .union => ds.unions.map .union
  | .enum => ds.enums.map .enum
  | .scalar => ds.scalars.map .scalar

theorem names_resolveKinds (ds : Declarations) : ds.resolveKinds.names = ds.names := by
  simp [names, all, resolveKinds, resolveRecord, resolveInput, Function.comp_def, Declaration.name]

variable {ds : Declarations}

theorem kind_of_mem_category {k : DeclarationKind} {d : Declaration} (h : d ∈ ds.category k) :
    d.kind = k := by
  cases k <;> obtain ⟨_, -, rfl⟩ := List.mem_map.mp h <;> rfl

theorem mem_all_iff {d : Declaration} : d ∈ ds.all ↔ d ∈ ds.category d.kind := by
  cases d <;> simp [all, category, Declaration.kind]

theorem all_eq (ds : Declarations) : ds.all =
    ds.category .object ++ ds.category .input ++ ds.category .interface ++ ds.category .union ++
      ds.category .enum ++ ds.category .scalar := rfl

theorem filter_category (ds : Declarations) (k other : DeclarationKind) :
    (ds.category other).filter (·.kind == k) = if other = k then ds.category k else [] := by
  split
  · next h =>
    subst h
    exact List.filter_eq_self.mpr fun d hd => by simp [kind_of_mem_category hd]
  · next h =>
    exact List.filter_eq_nil_iff.mpr fun d hd => by simpa [kind_of_mem_category hd] using h

theorem filter_all (ds : Declarations) (k : DeclarationKind) :
    ds.all.filter (·.kind == k) = ds.category k := by
  rw [all_eq]
  cases k <;> simp [List.filter_append, filter_category]

theorem category_add (ds : Declarations) (d : Declaration) (k : DeclarationKind) :
    (ds.add d).category k = ds.category k ++ [d].filter (·.kind == k) := by
  cases d <;> cases k <;> simp [add, category, Declaration.kind]

/-- Declarations go to the end of their category, one after the other. -/
theorem category_foldl_add (ds : Declarations) (l : List Declaration) (k : DeclarationKind) :
    (l.foldl add ds).category k = ds.category k ++ l.filter (·.kind == k) := by
  induction l generalizing ds with
  | nil => simp
  | cons d l ih =>
    rw [List.foldl_cons, ih, category_add, List.append_assoc, ← List.filter_append]
    rfl

theorem category_ofList (l : List Declaration) (k : DeclarationKind) :
    (ofList l).category k = l.filter (·.kind == k) := by
  rw [ofList, category_foldl_add]
  cases k <;> rfl

/-- Declarations are known by their categories. -/
theorem eq_of_category_eq {ds es : Declarations} (h : ∀ k, ds.category k = es.category k) : ds = es := by
  have hobjects := List.map_injective_iff.mpr (fun _ _ => Declaration.object.inj) (h .object)
  have hinputs := List.map_injective_iff.mpr (fun _ _ => Declaration.input.inj) (h .input)
  have hinterfaces := List.map_injective_iff.mpr (fun _ _ => Declaration.interface.inj) (h .interface)
  have hunions := List.map_injective_iff.mpr (fun _ _ => Declaration.union.inj) (h .union)
  have henums := List.map_injective_iff.mpr (fun _ _ => Declaration.enum.inj) (h .enum)
  have hscalars := List.map_injective_iff.mpr (fun _ _ => Declaration.scalar.inj) (h .scalar)
  cases ds
  cases es
  simp only at hobjects hinputs hinterfaces hunions henums hscalars
  subst hobjects hinputs hinterfaces hunions henums hscalars
  rfl

theorem find?_category (ds : Declarations) (k other : DeclarationKind) (name : String) :
    (ds.category other).find? (fun d => d.name == name && d.kind == k) =
      if other = k then (ds.category k).find? fun d => d.name == name else none := by
  split
  · next h =>
    subst h
    exact List.find?_congr fun d hd => by simp [kind_of_mem_category hd]
  · next h =>
    refine List.find?_eq_none.mpr fun d hd => ?_
    simp [kind_of_mem_category hd, h]

theorem findKind?_eq (ds : Declarations) (k : DeclarationKind) (name : String) :
    ds.findKind? k name = (ds.category k).find? fun d => d.name == name := by
  rw [findKind?, all_eq]
  cases k <;> simp [List.find?_append, find?_category]

theorem roots_eq (ds : Declarations) : ds.roots =
    ds.category .input ++ ds.category .object ++ ds.category .union ++ ds.category .enum := rfl

theorem mem_roots_iff {d : Declaration} :
    d ∈ ds.roots ↔ d ∈ ds.all ∧ d.kind ≠ .interface ∧ d.kind ≠ .scalar := by
  cases d <;> simp [roots, all, Declaration.kind]

theorem find?_roots {d : Declaration} (hd : d ∈ ds.roots) :
    ds.roots.find? (fun e => e.name == d.name && e.kind == d.kind) = ds.findKind? d.kind d.name := by
  have hkind : d.kind = .input ∨ d.kind = .object ∨ d.kind = .union ∨ d.kind = .enum := by
    simp only [roots_eq, List.mem_append] at hd
    rcases hd with ((hd | hd) | hd) | hd <;> simp [kind_of_mem_category hd]
  rw [findKind?_eq, roots_eq]
  rcases hkind with h | h | h | h <;> simp [h, List.find?_append, find?_category]

/-- The first root of a name within its category is what is found under the name. -/
theorem findKind?_of_roots {before rest : List Declaration} {d : Declaration}
    (hroots : ds.roots = before ++ d :: rest) (hnew : ∀ e ∈ before, e.name ≠ d.name) :
    ds.findKind? d.kind d.name = some d := by
  have hd : d ∈ ds.roots := by simp [hroots]
  rw [← find?_roots hd, hroots, List.find?_append]
  have hnone : before.find? (fun e => e.name == d.name && e.kind == d.kind) = none := by
    simpa using fun e he hname => absurd hname (hnew e he)
  simp [hnone]

theorem exists_findKind?_of_mem_roots {d : Declaration} (hd : d ∈ ds.roots) :
    ∃ e, ds.findKind? d.kind d.name = some e := by
  rw [← find?_roots hd, ← Option.isSome_iff_exists, List.find?_isSome]
  exact ⟨d, hd, by simp⟩

section Distinct

variable (distinct : ds.names.Nodup)

include distinct

theorem eq_of_name_eq {d e : Declaration} (hd : d ∈ ds.all) (he : e ∈ ds.all) (h : d.name = e.name) :
    d = e := List.inj_on_of_nodup_map distinct hd he h

theorem findKind?_of_mem {d : Declaration} (hd : d ∈ ds.all) :
    ds.findKind? d.kind d.name = some d := by
  cases hf : ds.findKind? d.kind d.name with
  | none =>
    have := List.find?_eq_none.mp hf d hd
    simp at this
  | some e =>
    obtain ⟨he, hname, -⟩ := findKind?_mem hf
    rw [eq_of_name_eq distinct he hd hname]

theorem find?_of_mem {d : Declaration} (hd : d ∈ ds.all) : ds.find? d.name = some d := by
  cases hf : ds.find? d.name with
  | none =>
    have := List.find?_eq_none.mp hf d hd
    simp at this
  | some e =>
    obtain ⟨he, hname⟩ := find?_mem hf
    rw [eq_of_name_eq distinct he hd hname]

theorem findKind?_eq_some_iff {k : DeclarationKind} {name : String} {d : Declaration} :
    ds.findKind? k name = some d ↔ d ∈ ds.all ∧ d.name = name ∧ d.kind = k := by
  refine ⟨findKind?_mem, ?_⟩
  rintro ⟨hd, rfl, rfl⟩
  exact findKind?_of_mem distinct hd

theorem find?_eq_some_iff {name : String} {d : Declaration} :
    ds.find? name = some d ↔ d ∈ ds.all ∧ d.name = name := by
  refine ⟨find?_mem, ?_⟩
  rintro ⟨hd, rfl⟩
  exact find?_of_mem distinct hd

end Distinct

end CheckedModels.Declarations
