import CheckedModels.Proofs.Compile.Repeated
import CheckedModels.Proofs.Conformance.Fields
import CheckedModels.Proofs.Sdl.Soundness

/-! Looking up the kinds of fields settles them: a second look changes nothing, and a compilation comes
out the same whether the kinds were looked up before it or not. -/
namespace CheckedModels.Declarations

def mapFields (g : Field → Field) (ds : Declarations) : Declarations :=
  { ds with
    objects := ds.objects.map fun d => { d with fields := d.fields.map g }
    inputs := ds.inputs.map fun d => { d with fields := d.fields.map g }
    interfaces := ds.interfaces.map fun d => { d with fields := d.fields.map g } }

def unset (ds : Declarations) : Declarations := ds.mapFields fun f => { f with kind := .unknown }

variable {ds : Declarations}

theorem resolveKinds_eq_mapFields (ds : Declarations) :
    ds.resolveKinds = ds.mapFields ds.resolveField :=
  rfl

theorem mapFields_mapFields (g h : Field → Field) :
    (ds.mapFields g).mapFields h = ds.mapFields (h ∘ g) := by
  simp [mapFields, Function.comp_def]

theorem mapFields_eq_self {g : Field → Field} (h : ∀ d ∈ ds.all, ∀ f ∈ d.fields, g f = f) :
    ds.mapFields g = ds := by
  have hfields {d : Declaration} (hd : d ∈ ds.category d.kind) : d.fields.map g = d.fields :=
    (List.map_congr_left (h d (mem_all_iff.mpr hd))).trans (List.map_id _)
  have hobjects : ds.objects.map (fun d => { d with fields := d.fields.map g }) = ds.objects := by
    refine (List.map_congr_left fun d hd => ?_).trans (List.map_id _)
    exact congrArg (RecordDeclaration.mk d.name · d.interfaces)
      (hfields (d := .object d) (List.mem_map_of_mem hd))
  have hinputs : ds.inputs.map (fun d => { d with fields := d.fields.map g }) = ds.inputs := by
    refine (List.map_congr_left fun d hd => ?_).trans (List.map_id _)
    exact congrArg (InputDeclaration.mk d.name) (hfields (d := .input d) (List.mem_map_of_mem hd))
  have hinterfaces :
      ds.interfaces.map (fun d => { d with fields := d.fields.map g }) = ds.interfaces := by
    refine (List.map_congr_left fun d hd => ?_).trans (List.map_id _)
    exact congrArg (RecordDeclaration.mk d.name · d.interfaces)
      (hfields (d := .interface d) (List.mem_map_of_mem hd))
  rw [mapFields, hobjects, hinputs, hinterfaces]

theorem all_resolveKinds (ds : Declarations) : ds.resolveKinds.all = ds.all.map ds.resolve := by
  simp [all, resolveKinds, resolve, Function.comp_def]

theorem find?_resolveKinds (name : String) :
    ds.resolveKinds.find? name = (ds.find? name).map ds.resolve := by
  rw [find?, all_resolveKinds, List.find?_map]
  simp [find?]

/-- What a name stands for does not depend on the kinds of fields. -/
theorem kindOf_resolveKinds (name : String) : ds.resolveKinds.kindOf name = ds.kindOf name := by
  unfold kindOf
  rw [find?_resolveKinds]
  cases ds.find? name <;> simp

theorem resolveField_resolveKinds (f : Field) : ds.resolveKinds.resolveField f = ds.resolveField f := by
  rw [resolveField, resolveField, kindOf_resolveKinds]

theorem resolveField_resolveField (f : Field) :
    ds.resolveField (ds.resolveField f) = ds.resolveField f := by
  by_cases h : f.kind = .unknown
  · have hfilled : ds.resolveField f = { f with kind := ds.kindOf f.typeName } := if_pos h
    rw [hfilled, resolveField]
    split <;> rfl
  · have hkept : ds.resolveField f = f := if_neg h
    rw [hkept, hkept]

theorem resolveKinds_resolveKinds (ds : Declarations) :
    ds.resolveKinds.resolveKinds = ds.resolveKinds := by
  rw [resolveKinds_eq_mapFields ds.resolveKinds, resolveKinds_eq_mapFields ds, mapFields_mapFields]
  congr 1
  funext f
  exact (resolveField_resolveKinds _).trans (resolveField_resolveField f)

theorem builtinKind?_cases {name : String} {k : ReferencedKind} (h : builtinKind? name = some k) :
    k = .primitive ∨ k = .identifier := by
  unfold builtinKind? at h
  split at h <;> simp_all

theorem find?_eq_none_iff {name : String} : ds.find? name = none ↔ name ∉ ds.names := by
  simp [find?, names]

theorem kindOf_eq_unknown_iff {name : String} :
    ds.kindOf name = .unknown ↔ builtinKind? name = none ∧ name ∉ ds.names := by
  rw [← find?_eq_none_iff, kindOf]
  cases hb : builtinKind? name with
  | some k => rcases builtinKind?_cases hb with rfl | rfl <;> simp
  | none =>
    cases ds.find? name with
    | none => simp
    | some d => cases d <;> simp [Declaration.kind, DeclarationKind.toReferenced]

/-- A kind that is looked up is built in, or the kind of the first declaration of the name. -/
theorem exists_find?_of_kindOf {name : String}
    (h : ds.kindOf name ∉ [ReferencedKind.primitive, .identifier, .unknown]) :
    ∃ d, ds.find? name = some d ∧ ds.kindOf name = d.kind.toReferenced := by
  unfold kindOf at h ⊢
  cases hb : builtinKind? name with
  | some k => rcases builtinKind?_cases hb with rfl | rfl <;> simp [hb] at h
  | none =>
    cases hd : ds.find? name with
    | none => simp [hb, hd] at h
    | some d => exact ⟨d, rfl, rfl⟩

/-- What becomes of a field. Nothing but a kind that is unknown may change, and a declaration that a new
kind refers to is found by this kind too. -/
structure FillsIn (ds : Declarations) (f filled : Field) : Prop where
  name : filled.name = f.name
  type : filled.type = f.type
  kept : f.kind ≠ .unknown → filled.kind = f.kind
  unknown : filled.kind = .unknown ↔
    f.kind = .unknown ∧ builtinKind? f.typeName = none ∧ f.typeName ∉ ds.names
  found : f.kind = .unknown → filled.kind ∉ [ReferencedKind.primitive, .identifier, .unknown] →
    ∃ kind d, filled.kind.declared? = some kind ∧ ds.findKind? kind f.typeName = some d ∧
      ds.find? f.typeName = some d

theorem fillsIn_resolveField (ds : Declarations) (f : Field) : ds.FillsIn f (ds.resolveField f) where
  name := name_resolveField ds f
  type := type_resolveField ds f
  kept h := congrArg Field.kind (if_neg h)
  unknown := by
    by_cases h : f.kind = .unknown
    · rw [kind_resolveField h, kindOf_eq_unknown_iff, and_iff_right h]
    · have hkept : ds.resolveField f = f := if_neg h
      simp [hkept, h]
  found h hkind := by
    rw [kind_resolveField h] at hkind ⊢
    obtain ⟨d, hd, hk⟩ := exists_find?_of_kindOf hkind
    exact ⟨d.kind, d, by rw [hk, ReferencedKind.declared?_toReferenced], findKind?_of_find? hd, hd⟩

theorem unset_resolveKinds (ds : Declarations) : ds.resolveKinds.unset = ds.unset := by
  rw [unset, resolveKinds_eq_mapFields, mapFields_mapFields, unset]
  congr 1
  funext f
  simp only [Function.comp_apply, resolveField]
  split <;> rfl

theorem unset_eq_self (h : ds.Unset) : ds.unset = ds :=
  mapFields_eq_self fun d hd f hf => by rw [← h d hd f hf]

/-- A compilation looks up the kinds itself. -/
theorem compile_resolveKinds (ds : Declarations) (config : Config) :
    ds.resolveKinds.compile config = ds.compile config := by
  rw [compile, compile, resolveKinds_resolveKinds]

/-- What is read from a text has had no kinds before they were looked up. -/
theorem compile_unset_of_ofTextWithin {limit : Nat} {text : String}
    (h : ofTextWithin limit text = .ok ds) (config : Config) : ds.unset.compile config = ds.compile config := by
  obtain ⟨written, hwritten, rfl⟩ := exists_writable_of_ofTextWithin h
  have hunset : written.Unset := fun d hd f hf => ((hwritten d hd).of_mem_fields hf).kind
  rw [unset_resolveKinds, unset_eq_self hunset, compile_resolveKinds]

theorem map_compile_unset (limit : Nat) (text : String) (config : Config) :
    (ofTextWithin limit text).map (fun read => read.unset.compile config) =
      (ofTextWithin limit text).map fun read => read.compile config := by
  cases h : ofTextWithin limit text with
  | error e => simp only [Except.map]
  | ok read => simp only [Except.map, compile_unset_of_ofTextWithin h config]

/-- A second look changes no kind. It does not matter to a compilation whether kinds were looked up
before, nor to one of a text whether they are forgotten again. -/
theorem resolveKinds_settles (ds : Declarations) :
    ds.resolveKinds.resolveKinds = ds.resolveKinds ∧
    (∃ fill : Field → Field, ds.resolveKinds = ds.mapFields fill ∧ ∀ f, ds.FillsIn f (fill f)) ∧
    (∀ config, ds.compile config = ds.resolveKinds.compile config) ∧
    ∀ limit text config, (ofTextWithin limit text).map (fun read => read.unset.compile config) =
      (ofTextWithin limit text).map fun read => read.compile config := by
  refine ⟨ds.resolveKinds_resolveKinds, ⟨ds.resolveField, rfl, ds.fillsIn_resolveField⟩,
    fun config => (ds.compile_resolveKinds config).symm, map_compile_unset⟩

end CheckedModels.Declarations
