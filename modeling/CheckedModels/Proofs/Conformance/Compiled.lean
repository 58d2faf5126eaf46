import CheckedModels.Proofs.Compile.Reached
import CheckedModels.Proofs.Compile.Sharing
import CheckedModels.Proofs.Conformance.Fields

/-! A compiled schema accepts the plain data that conforms to it, and no other. -/
namespace CheckedModels

namespace Declarations

/-- What a compilation gives for the declarations that it reaches. -/
structure Yields (ds : Declarations) (config : Config) (r : Registry) : Prop where
  declared : ∀ name ∈ r.keys, ∃ d ∈ ds.all, d.name = name
  found : ∀ d ∈ ds.all, d.name ∈ r.keys →
    r.find? d.name = some (Scope.content { declarations := ds.resolveKinds } config (ds.resolve d))
  refers : ∀ d ∈ ds.all, d.isModel = true → d.name ∈ r.keys →
    ∀ p ∈ Scope.compose { declarations := ds.resolveKinds } (config.choice d.name) (ds.resolve d),
      ∀ name, p.2.core = .named name → name ∈ r.keys
  members : ∀ u, .union u ∈ ds.all → u.name ∈ r.keys →
    ∀ m ∈ u.members, (ds.findKind? .object m).isSome = true → m ∈ r.keys

theorem mem_names_of_mem_compose {ds : Declarations} (config : Config) {e : String × Declaration}
    (he : e ∈ (Survey.ofRoots { declarations := ds }).reached) (hm : e.2.isModel = true)
    {p : String × Descriptor}
    (hp : p ∈ Scope.compose { declarations := ds } (config.choice e.2.name) e.2) {name : String}
    (hname : p.2.core = .named name) : name ∈ (Survey.ofRoots { declarations := ds }).names := by
  obtain ⟨w, -, htracks⟩ := ds.assemble_tracks config
  obtain ⟨_, made, -, -, hfin⟩ := htracks.exists_of_mem he
  have hlinks := hfin.links
  rw [Survey.content_of_isModel hm] at hlinks
  cases hlinks with
  | model hps =>
    have hlookup := hps.lookup p.1
    rw [Entries.lookup_of_mem (Scope.nodup_keys_compose _ _ _) hp] at hlookup
    generalize List.lookup p.1 _ = found at hlookup
    cases hlookup with
    | some hl =>
      rcases hl.core_cases with ⟨b, hb, -⟩ | ⟨other, key, hother, -, hkey⟩
      · simp [hb] at hname
      · obtain rfl : other = name := by simpa [hother] using hname
        exact (htracks.lookup_isSome other).mp (by simp [hkey])

theorem yields_compile {ds : Declarations} (distinct : ds.names.Nodup) (config : Config) :
    ∃ c, ds.compile config = .ok c ∧ ds.Yields config c.registry := by
  let s : Scope := { declarations := ds.resolveKinds }
  let v := Survey.ofRoots s
  have hdistinct : ds.resolveKinds.names.Nodup := ds.names_resolveKinds ▸ distinct
  have hkeys : Registry.keys ⟨v.reached.map fun e => (e.1, s.content config e.2)⟩ = v.names :=
    v.keys_map _
  have hreached : ∀ d ∈ ds.all, d.name ∈ v.names → (d.name, ds.resolve d) ∈ v.reached := by
    intro d hd hname
    have hmem := mem_reached_of_mem_names hdistinct (mem_all_resolveKinds_iff.mpr ⟨d, hd, rfl⟩)
      (by rwa [name_resolve])
    rwa [name_resolve] at hmem
  refine ⟨_, compile_of_distinct distinct config, ⟨?_, ?_, ?_, ?_⟩⟩
  · intro name hname
    rw [hkeys] at hname
    obtain ⟨e, he, rfl⟩ := List.mem_map.mp hname
    have hfound := ds.resolveKinds.sound_ofRoots.found e he
    rw [findKind?_resolveKinds] at hfound
    obtain ⟨d, hd, -⟩ := Option.map_eq_some_iff.mp hfound
    exact ⟨d, (findKind?_mem hd).1, (findKind?_mem hd).2.1⟩
  · intro d hd hname
    rw [hkeys] at hname
    refine Entries.lookup_of_mem ?_ (List.mem_map.mpr ⟨_, hreached d hd hname, rfl⟩)
    change (Registry.keys _).Nodup
    rw [hkeys]
    exact ds.resolveKinds.sound_ofRoots.distinct
  · intro d hd hm hname p hp name hcore
    rw [hkeys] at hname ⊢
    refine mem_names_of_mem_compose config (hreached d hd hname) (by simpa using hm) ?_ hcore
    rwa [name_resolve]
  · intro u hu hname m hm ho
    rw [hkeys] at hname ⊢
    refine mem_names_of_mem_members (hreached _ hu hname) hm ?_
    simpa [findKind?_resolveKinds] using ho

/-- The identifier field of each record, as its model has it. -/
def identifiers (r : Registry) (name : String) : Option String :=
  (r.model? name).bind Model.identifier?

def objectMembers (ds : Declarations) (u : UnionDeclaration) : List Descriptor :=
  (u.members.filter fun m => (ds.findKind? .object m).isSome).map .named

theorem mem_objectMembers_iff {ds : Declarations} {u : UnionDeclaration} {a : Descriptor} :
    a ∈ ds.objectMembers u ↔
      ∃ d, a = .named d.name ∧ d.name ∈ u.members ∧ ds.findKind? .object d.name = some d := by
  constructor
  · intro ha
    obtain ⟨m, hm, rfl⟩ := List.mem_map.mp ha
    obtain ⟨hm, ho⟩ := List.mem_filter.mp hm
    obtain ⟨d, hd⟩ := Option.isSome_iff_exists.mp ho
    obtain ⟨-, rfl, -⟩ := findKind?_mem hd
    exact ⟨d, rfl, hm, hd⟩
  · rintro ⟨d, rfl, hm, hd⟩
    refine List.mem_map.mpr ⟨d.name, List.mem_filter.mpr ⟨hm, ?_⟩, rfl⟩
    rw [hd]
    rfl

/-- Names that a model can be made of: no object, input or interface has a null character in its name. -/
def Usable (ds : Declarations) : Prop :=
  ∀ d ∈ ds.all, d.isModel = true → d.name.contains '\x00' = false

namespace Yields

open Outcome

variable {ds : Declarations} {config : Config} {r : Registry}

theorem find?_model (h : ds.Yields config r) {d : Declaration} (hd : d ∈ ds.all)
    (hm : d.isModel = true) (hr : d.name ∈ r.keys) : r.find? d.name = some (.model ⟨d.name,
      Scope.compose { declarations := ds.resolveKinds } (config.choice d.name) (ds.resolve d), true⟩) := by
  rw [h.found d hd hr]
  cases d with
  | object | input | interface => rfl
  | union | enum | scalar => cases hm

theorem find?_union (h : ds.Yields config r) {u : UnionDeclaration} (hu : .union u ∈ ds.all)
    (hr : u.name ∈ r.keys) :
    r.find? u.name = some (.union ⟨some u.name, ds.objectMembers u, true⟩) := by
  have hfound := h.found _ hu hr
  simp only [resolve, Scope.content, findKind?_resolveKinds, Option.isSome_map] at hfound
  exact hfound

theorem identifiers_eq_some_iff (h : ds.Yields config r) {d : Declaration} (hd : d ∈ ds.all)
    (hm : d.isModel = true) (hr : d.name ∈ r.keys) {key : String} : identifiers r d.name = some key ↔
      (key, .identifier) ∈
        Scope.compose { declarations := ds.resolveKinds } (config.choice d.name) (ds.resolve d) := by
  have hids := Scope.length_identifierKeys_compose { declarations := ds.resolveKinds }
    (config.choice d.name) (ds.resolve d)
  unfold identifiers Registry.model?
  rw [h.find?_model hd hm hr]
  exact Model.identifier?_eq_some_iff hids

variable {Q : Value → Prop} {entries : List (Scalar × Value)}

/-- The values in `Q` are told apart by every declaration that is reached. -/
def Settles (ds : Declarations) (r : Registry) (Q : Value → Prop) : Prop :=
  ∀ d ∈ ds.all, d.name ∈ r.keys → ∀ n x, 0 < n → Q x →
    Decides (Conforms ds (identifiers r) d x) (r.validate n (.named d.name) x)

theorem decides_base (hsettles : Settles ds r Q) {name : String} {base : Descriptor}
    (hbase : ds.Bases name base) (hreached : ∀ key, base.core = .named key → key ∈ r.keys) (n : Nat)
    (x : Value) (hn : 0 < n) (hx : Q x) :
    Decides (Fits ds (identifiers r) name x) (r.validate n base x) := by
  cases hbase with
  | @builtin b hb =>
    obtain ⟨b', heq, htakes⟩ := builtin?_takes hb
    obtain rfl : b = b' := Descriptor.basic.inj heq
    have hsome : (builtinKind? name).isSome = true := by
      rw [← isSome_builtin?, hb]
      rfl
    rw [Registry.validate_basic]
    exact (Registry.decides_basic b x).congr ((htakes x).trans (fits_builtin_iff hsome).symm)
  | @declared d hnone hd =>
    obtain ⟨hmem, rfl⟩ := find?_mem hd
    have hdecides := hsettles d hmem (hreached d.name rfl) n x hn hx
    exact hdecides.congr (fits_declared_iff hnone hd).symm

/-- A field that is not the identifier tells what is under its name, or that nothing is. -/
theorem decides_field (h : ds.Yields config r) (hsettles : Settles ds r Q)
    (hitems : ∀ v items, Q v → v.items? = some items → v = .list items ∧ ∀ x ∈ items, Q x)
    (hentries : ∀ key x, Value.under? entries key = some x → Q x) {d : Declaration} (hd : d ∈ ds.all)
    (hm : d.isModel = true) (hr : d.name ∈ r.keys) {key : String} {f : Field} {base : Descriptor}
    (hp : (key, f.type.wrap base true) ∈
      Scope.compose { declarations := ds.resolveKinds } (config.choice d.name) (ds.resolve d))
    (hbase : ds.Bases f.typeName base) :
    Decides ((Value.under? entries key = none → f.type.isNonNull = false) ∧
      ∀ x, Value.under? entries key = some x → f.type.Admits (Fits ds (identifiers r)) true x)
      (r.part entries (key, f.type.wrap base true)) := by
  have hpos : 0 < r.entries.length := Registry.length_pos_of_find? (h.find?_model hd hm hr)
  unfold Registry.part
  dsimp only
  cases hu : Value.under? entries key with
  | none =>
    unfold Model.omitted
    rw [Registry.isMaybeNull_wrap hbase.isMaybeNull_eq]
    cases hnull : f.type.isNonNull with
    | false => exact .accepted (by simp) _
    | true => exact decides_reject (by simp) _
  | some x =>
    have hreached : ∀ name, base.core = .named name → name ∈ r.keys := fun name hname =>
      h.refers d hd hm hr _ hp name (by rwa [TypeRef.core_wrap])
    have hwrap := Registry.decides_wrap hpos hitems f.type
      (decides_base hsettles hbase hreached) hpos (hentries key x hu) true
    exact (Registry.decides_embed hwrap _).congr (by simp)

theorem decides_identifier (r : Registry) (entries : List (Scalar × Value)) (key : String) :
    Decides (∃ t, Value.under? entries key = some (.scalar (.str t)))
      (r.part entries (key, .identifier)) := by
  unfold Registry.part
  dsimp only
  cases hu : Value.under? entries key with
  | none => exact decides_reject (by simp) _
  | some x =>
    have htext : Decides (∃ t, x = .scalar (.str t)) (r.check .identifier x) := by
      rw [Registry.check, Registry.validate_basic]
      exact Registry.decides_basic .identifier x
    exact (Registry.decides_embed htext _).congr (by simp)

/-- What a property makes of the entries of a record is what its field asks of them. -/
theorem decides_part (h : ds.Yields config r) (hsettles : Settles ds r Q)
    (hitems : ∀ v items, Q v → v.items? = some items → v = .list items ∧ ∀ x ∈ items, Q x)
    (hentries : ∀ key x, Value.under? entries key = some x → Q x) {d : Declaration} (hd : d ∈ ds.all)
    (hm : d.isModel = true) (hr : d.name ∈ r.keys) {p : String × Descriptor}
    (hp : p ∈ Scope.compose { declarations := ds.resolveKinds } (config.choice d.name) (ds.resolve d))
    {f : Field} (hf : ds.Renders f p.2) :
    Decides (f.Holds ds (identifiers r) d.name entries p.1) (r.part entries p) := by
  obtain ⟨key, descriptor⟩ := p
  unfold Field.Holds
  cases hf with
  | identifier =>
    rw [if_pos ((h.identifiers_eq_some_iff hd hm hr).mpr hp)]
    exact decides_identifier r entries key
  | @wrapped base hbase =>
    have hnot : identifiers r d.name ≠ some key := by
      intro hid
      have hdistinct := Scope.nodup_keys_compose { declarations := ds.resolveKinds }
        (config.choice d.name) (ds.resolve d)
      have hlookup := Entries.lookup_of_mem hdistinct ((h.identifiers_eq_some_iff hd hm hr).mp hid)
      rw [Entries.lookup_of_mem hdistinct hp] at hlookup
      have hidentifier := TypeRef.isIdentifier_wrap hbase.isIdentifier_eq true f.type
      rw [Option.some.inj hlookup] at hidentifier
      exact absurd hidentifier (by decide)
    rw [if_neg hnot]
    exact h.decides_field hsettles hitems hentries hd hm hr hp hbase

theorem fault?_eq_none (usable : ds.Usable) {d : Declaration} (hd : d ∈ ds.all) (hm : d.isModel = true)
    (properties : Entries Descriptor) : Model.fault? ⟨d.name, properties, true⟩ = none := by
  simp [Model.fault?, usable d hd hm]

/-- A model tells the dictionaries that conform to its declaration if all smaller values are told apart. -/
theorem decides_dict (h : ds.Yields config r) (distinct : ds.names.Nodup) (unset : ds.Unset)
    (usable : ds.Usable) (hentries : ∀ e ∈ entries, e.2.IsPlain)
    (hsettles : Settles ds r fun x => x.IsPlain ∧ sizeOf x < sizeOf (Value.dict entries))
    {d : Declaration} (hd : d ∈ ds.all) (hm : d.isModel = true) (hr : d.name ∈ r.keys) (n : Nat) :
    Decides ((∀ e ∈ entries, ∃ name ∈ (ds.composedFields d).keys, e.1 = .str (.whole name)) ∧
      ∀ e ∈ ds.composedFields d, e.2.Holds ds (identifiers r) d.name entries e.1)
      (r.validate n (.named d.name) (.dict entries)) := by
  have hitems : ∀ (v : Value) (items : List Value), v.IsPlain ∧ sizeOf v < sizeOf (Value.dict entries) →
      v.items? = some items →
      v = .list items ∧ ∀ x ∈ items, x.IsPlain ∧ sizeOf x < sizeOf (Value.dict entries) := by
    rintro v items ⟨hplain, hsize⟩ hv
    obtain ⟨heq, hall⟩ := hplain.eq_list hv
    exact ⟨heq, fun x hx => ⟨hall x hx, (Value.sizeOf_item hv hx).trans hsize⟩⟩
  have hunder : ∀ key x, Value.under? entries key = some x →
      x.IsPlain ∧ sizeOf x < sizeOf (Value.dict entries) := by
    intro key x hx
    have hmem := Value.mem_of_under? hx
    exact ⟨hentries _ hmem, Value.sizeOf_value hmem⟩
  let choice := config.choice d.name
  let properties := Scope.compose { declarations := ds.resolveKinds } choice (ds.resolve d)
  have hparts : ∀ p ∈ properties, Decides (∀ f, (p.1, f) ∈ ds.composedFields d →
      f.Holds ds (identifiers r) d.name entries p.1) (r.part entries p) := by
    intro p hp
    obtain ⟨f, hf, hrenders⟩ := exists_field_of_mem_compose distinct unset hd choice hp
    have hpart := h.decides_part hsettles hitems hunder hd hm hr hp hrenders
    refine hpart.congr ⟨fun hholds g hg => ?_, fun hall => hall f hf⟩
    have hsame := Entries.lookup_of_mem (Entries.nodup_ofPairs _) hg
    rw [Entries.lookup_of_mem (Entries.nodup_ofPairs _) hf] at hsame
    rwa [← Option.some.inj hsame]
  have hdict : Decides _ (r.validate n (.named d.name) (.dict entries)) :=
    Registry.decides_dict (h.find?_model hd hm hr) (fault?_eq_none usable hd hm _) hparts
  have hkeys : ∀ {key}, key ∈ properties.keys ↔ key ∈ (ds.composedFields d).keys :=
    mem_keys_compose_iff distinct unset hd choice
  refine hdict.congr ⟨?_, ?_⟩
  · rintro ⟨hknown, hall⟩
    refine ⟨fun e he => ?_, fun e he => ?_⟩
    · obtain ⟨name, hname, hkey⟩ := hknown e he
      exact ⟨name, hkeys.mp hname, hkey⟩
    · obtain ⟨p, hp, hname⟩ := List.mem_map.mp (hkeys.mpr (Entries.mem_keys_of_mem he))
      have hholds := hall p hp e.2
      rw [hname] at hholds
      exact hholds he
  · rintro ⟨hknown, hall⟩
    refine ⟨fun e he => ?_, fun p hp f hf => hall _ hf⟩
    obtain ⟨name, hname, hkey⟩ := hknown e he
    exact ⟨name, hkeys.mpr hname, hkey⟩

/-- The same for any plain value: what is no dictionary is no record. -/
theorem decides_record (h : ds.Yields config r) (distinct : ds.names.Nodup) (unset : ds.Unset)
    (usable : ds.Usable) {v : Value} (hv : v.IsPlain)
    (hsettles : Settles ds r fun x => x.IsPlain ∧ sizeOf x < sizeOf v)
    {d : Declaration} (hd : d ∈ ds.all) (hm : d.isModel = true) (hr : d.name ∈ r.keys) (n : Nat) :
    Decides (Conforms ds (identifiers r) d v) (r.validate n (.named d.name) v) := by
  have hids : ∀ name, identifiers r d.name = some name → name ∈ (ds.composedFields d).keys := by
    intro name hid
    refine (mem_keys_compose_iff distinct unset hd (config.choice d.name)).mp ?_
    exact Entries.mem_keys_of_mem ((h.identifiers_eq_some_iff hd hm hr).mp hid)
  have hfind := h.find?_model hd hm hr
  have hfault := fault?_eq_none usable hd hm
  refine Decides.congr ?_ (conforms_record_iff hm hids).symm
  cases hv with
  | scalar s =>
    rw [Registry.validate_not_model hfind (hfault _) (by simp) (by simp)]
    exact decides_reject (by simp) _
  | list hall =>
    rw [Registry.validate_not_model hfind (hfault _) (by simp) (by simp)]
    exact decides_reject (by simp) _
  | @dict entries hentries =>
    have hdict := h.decides_dict distinct unset usable hentries hsettles hd hm hr n
    refine hdict.congr ⟨fun hall => ⟨entries, rfl, hall⟩, ?_⟩
    rintro ⟨_, heq, hall⟩
    exact Value.dict.inj heq ▸ hall

theorem model_of_mem_members (h : ds.Yields config r) {u : UnionDeclaration} (hu : .union u ∈ ds.all)
    (hr : u.name ∈ r.keys) {d : Declaration} (hd : ds.findKind? .object d.name = some d)
    (hm : d.name ∈ u.members) : d ∈ ds.all ∧ d.isModel = true ∧ d.name ∈ r.keys := by
  obtain ⟨hmem, -, hkind⟩ := findKind?_mem hd
  exact ⟨hmem, by simp [Declaration.isModel, hkind], h.members u hu hr _ hm (by simp [hd])⟩

theorem usable_objectMembers (h : ds.Yields config r) (usable : ds.Usable) {u : UnionDeclaration}
    (hu : .union u ∈ ds.all) (hr : u.name ∈ r.keys) : r.Usable (ds.objectMembers u) := by
  intro a ha
  obtain ⟨d, rfl, hm, hd⟩ := mem_objectMembers_iff.mp ha
  obtain ⟨hmem, hmodel, hreached⟩ := h.model_of_mem_members hu hr hd hm
  exact ⟨_, _, rfl, h.find?_model hmem hmodel hreached, fault?_eq_none usable hmem hmodel _⟩

theorem nameEnds (h : ds.Yields config r) (usable : ds.Usable) {d : Declaration} (hd : d ∈ ds.all)
    (hr : d.name ∈ r.keys) : r.nameEnds (.named d.name) = true := by
  cases d with
  | object d | input d | interface d =>
    exact Registry.nameEnds_of_not_union (by simp [h.find?_model hd rfl hr])
  | enum | scalar =>
    refine Registry.nameEnds_of_not_union fun u hu => ?_
    cases (h.found _ hd hr).symm.trans hu
  | union u =>
    obtain ⟨name, hname⟩ := Registry.typeName?_union (h.find?_union hd hr) fun a ha => by
      obtain ⟨key, m, rfl, hm, -⟩ := h.usable_objectMembers usable hd hr a ha
      exact ⟨m, Registry.record?_named hm⟩
    exact Registry.nameEnds_of_typeName? hname

theorem decides_union (h : ds.Yields config r) (distinct : ds.names.Nodup) (unset : ds.Unset)
    (usable : ds.Usable) {v : Value} (hv : v.IsPlain)
    (hsettles : Settles ds r fun x => x.IsPlain ∧ sizeOf x < sizeOf v)
    {u : UnionDeclaration} (hu : .union u ∈ ds.all) (hr : u.name ∈ r.keys) {n : Nat} (hn : 0 < n) :
    Decides (Conforms ds (identifiers r) (.union u) v) (r.validate n (.named u.name) v) := by
  have hparts : ∀ n, ∀ a ∈ ds.objectMembers u, Decides (∃ d, a = .named d.name ∧
      ds.findKind? .object d.name = some d ∧ Conforms ds (identifiers r) d v) (r.validate n a v) := by
    intro n a ha
    obtain ⟨d, rfl, hm, hd⟩ := mem_objectMembers_iff.mp ha
    obtain ⟨hmem, hmodel, hreached⟩ := h.model_of_mem_members hu hr hd hm
    have hrecord := h.decides_record distinct unset usable hv hsettles hmem hmodel hreached n
    refine hrecord.congr ⟨fun hc => ⟨d, rfl, hd, hc⟩, ?_⟩
    rintro ⟨e, hname, he, hc⟩
    rw [← Descriptor.named.inj hname, hd] at he
    exact Option.some.inj he ▸ hc
  have husable := h.usable_objectMembers usable hu hr
  refine (Registry.decides_union (h.find?_union hu hr) husable hv hn hparts).congr ?_
  rw [conforms_union_iff]
  constructor
  · rintro ⟨a, ha, d, rfl, hd, hc⟩
    obtain ⟨e, hname, hm, -⟩ := mem_objectMembers_iff.mp ha
    exact ⟨d, Descriptor.named.inj hname ▸ hm, hd, hc⟩
  · rintro ⟨d, hm, hd, hc⟩
    exact ⟨.named d.name, mem_objectMembers_iff.mpr ⟨d, rfl, hm, hd⟩, d, rfl, hd, hc⟩

/-- Every declaration tells a plain value if it does the smaller ones. -/
theorem settles_step (h : ds.Yields config r) (distinct : ds.names.Nodup) (unset : ds.Unset)
    (usable : ds.Usable) {v : Value} (hv : v.IsPlain)
    (hsettles : Settles ds r fun x => x.IsPlain ∧ sizeOf x < sizeOf v)
    {d : Declaration} (hd : d ∈ ds.all) (hr : d.name ∈ r.keys) {n : Nat} (hn : 0 < n) :
    Decides (Conforms ds (identifiers r) d v) (r.validate n (.named d.name) v) := by
  cases d with
  | object | input | interface =>
    exact h.decides_record distinct unset usable hv hsettles hd rfl hr n
  | union u => exact h.decides_union distinct unset usable hv hsettles hd hr hn
  | enum e =>
    have hfind := h.found _ hd hr
    rw [Registry.validate_named_enumeration hfind]
    exact (Registry.decides_enumeration ⟨e.name, e.values⟩ v).congr conforms_enum_iff.symm
  | scalar e =>
    have hfind := h.found _ hd hr
    rw [Registry.validate_named_basic hfind]
    exact (Registry.decides_basic .frozen v).congr ⟨fun _ => .scalar e v, fun _ => trivial⟩

theorem settles (h : ds.Yields config r) (distinct : ds.names.Nodup) (unset : ds.Unset)
    (usable : ds.Usable) : Settles ds r Value.IsPlain := by
  have hsize : ∀ size, Settles ds r fun x => x.IsPlain ∧ sizeOf x < size := by
    intro size
    induction size with
    | zero => exact fun _ _ _ _ _ _ hx => absurd hx.2 (Nat.not_lt_zero _)
    | succ size ih =>
      intro d hd hr n x hn hx
      refine h.settles_step distinct unset usable hx.1 (fun e he hre n y hn hy => ?_) hd hr hn
      exact ih e he hre n y hn ⟨hy.1, by omega⟩
  exact fun d hd hr n x hn hx => hsize (sizeOf x + 1) d hd hr n x hn ⟨hx, Nat.lt_succ_self _⟩

end Yields

/-- Plain data is accepted under a name exactly if it conforms to what is declared under that name. -/
theorem isValid_iff_conforms {ds : Declarations} (distinct : ds.names.Nodup) (unset : ds.Unset)
    (usable : ds.Usable) (config : Config) :
    ∃ c, ds.compile config = .ok c ∧ ∀ name ∈ c.registry.keys, ∃ d, ds.find? name = some d ∧
      ∀ j : Json, ∃ b, c.registry.isValid (.named name) (.ofJson j) = .ok b ∧
        (b = true ↔ Conforms ds (identifiers c.registry) d (.ofJson j)) := by
  obtain ⟨c, hcompile, hyields⟩ := yields_compile distinct config
  refine ⟨c, hcompile, fun name hname => ?_⟩
  obtain ⟨d, hd, rfl⟩ := hyields.declared name hname
  refine ⟨d, find?_of_mem distinct hd, fun j => ?_⟩
  have hpos : 0 < c.registry.entries.length := by
    obtain ⟨e, he, -⟩ := List.mem_map.mp hname
    exact List.length_pos_of_mem he
  have hdecides := hyields.settles distinct unset usable d hd hname _ (.ofJson j) hpos
    (Value.isPlain_ofJson j)
  exact Registry.exists_isValid (hyields.nameEnds usable hd hname) hdecides

/-- A record that refers to itself and has an identifier. -/
theorem isValid_iff_conforms_node :
    let ds : Declarations := { objects := [⟨"Node",
      [⟨"id", .nonNull (.named "ID"), .unknown⟩, ⟨"next", .list (.named "Node"), .unknown⟩], []⟩] }
    ∃ c, ds.compile {} = .ok c ∧ ∀ name ∈ c.registry.keys, ∃ d, ds.find? name = some d ∧
      ∀ j : Json, ∃ b, c.registry.isValid (.named name) (.ofJson j) = .ok b ∧
        (b = true ↔ Conforms ds (identifiers c.registry) d (.ofJson j)) := by
  intro ds
  exact isValid_iff_conforms (by decide) (by simp [Unset, ds, all, Declaration.fields])
    (by simp +decide [Usable, ds, all, Declaration.name]) {}

/-- A null character in the name of a declaration makes its model refuse what conforms to it. -/
theorem isValid_null_in_name :
    let ds : Declarations :=
      { objects := [⟨"T", [⟨"a", .named "B\x00", .unknown⟩], []⟩, ⟨"B\x00", [], []⟩] }
    let j : Json := .obj [(.whole "a", .obj [])]
    ds.names.Nodup ∧ ds.Unset ∧ ∃ c d, ds.compile {} = .ok c ∧ ds.find? "T" = some d ∧
      c.registry.isValid (.named "T") (.ofJson j) = .ok false ∧
      Conforms ds (identifiers c.registry) d (.ofJson j) := by
  intro ds j
  let r : Registry := ⟨[("T", .model ⟨"T", [("a", .maybeNull (.named "B\x00"))], true⟩),
    ("B\x00", .model ⟨"B\x00", [], true⟩)]⟩
  have hcompile : ds.compile {} = .ok ⟨r, [.compiled 2]⟩ := by decide +kernel
  refine ⟨by decide, by simp [Unset, ds, all, Declaration.fields], _, _, hcompile, rfl, ?_, ?_⟩
  · have hfault : ∀ unions v, r.validate unions (.named "B\x00") v = Outcome.broken .nullInName :=
      fun unions v => Registry.validate_fault rfl (by simp [Model.fault?]) v
    have hrecord : r.record? (.named "B\x00") = some ⟨"B\x00", [], true⟩ := rfl
    have hbroken : r.part [(.str (.whole "a"), .dict [])] ("a", .maybeNull (.named "B\x00")) =
        Outcome.reject .nullInName := by
      simp only [Registry.part, Value.under?, if_pos, Registry.check]
      rw [Registry.validate_maybeNull (by simp), hfault, Registry.embed, Registry.embed, hrecord]
      rfl
    have hcheck : r.check (.named "T") (.ofJson j) =
        .error (.rejected [.plain [.key "a"] .nullInName]) := by
      change r.validate _ (.named "T") (.dict [(.str (.whole "a"), .dict [])]) = _
      rw [Registry.validate_dict rfl (by simp [Model.fault?])]
      simp only [List.map_cons, List.map_nil, hbroken]
      rfl
    rw [Registry.isValid, Registry.convert, Registry.onItsOwn_of_nameEnds rfl, hcheck]
  · have hfields : ds.composedFields (.object ⟨"T", [⟨"a", .named "B\x00", .unknown⟩], []⟩) =
        [("a", ⟨"a", .named "B\x00", .unknown⟩)] := by decide +kernel
    have hempty : ds.composedFields (.object ⟨"B\x00", [], []⟩) = [] := by decide +kernel
    have hids : ∀ d : Declaration, d ∈ ds.all → identifiers r d.name = none := by decide +kernel
    have hinner : Conforms ds (identifiers r) (.object ⟨"B\x00", [], []⟩) (.dict []) := by
      refine .record rfl ?_ ?_ ?_ ?_
      · simp
      · simp [hids, ds, all]
      · simp [hempty]
      · simp [hempty]
    have hfits : Fits ds (identifiers r) "B\x00" (.dict []) := .declared rfl rfl hinner
    refine .record rfl ?_ ?_ ?_ ?_
    · rw [hfields]
      rintro e he
      obtain rfl := List.mem_singleton.mp he
      exact ⟨"a", by decide, rfl⟩
    · simp [hids, ds, all]
    · rw [hfields]
      rintro e he - -
      obtain rfl := List.mem_singleton.mp he
      rfl
    · rw [hfields]
      rintro e he - x hx
      obtain rfl := List.mem_singleton.mp he
      obtain rfl : .dict [] = x := Option.some.inj hx
      exact .named hfits

end Declarations

end CheckedModels
