import CheckedModels.Proofs.Conversion.Made
import CheckedModels.Value.Snapshot
import Mathlib.Logic.Relation

/-! Snapshots are plain data, and the descriptor that made a value accepts its snapshot. -/
namespace CheckedModels

namespace Value

theorem snapshot_list (items : List Value) : snapshot (.list items) = .list (items.map snapshot) := by
  have hitems : ∀ items : List Value, snapshotItems items = items.map snapshot := by
    intro items
    induction items with
    | nil => rfl
    | cons v rest ih => rw [snapshotItems, ih, List.map_cons]
  rw [snapshot, hitems]

theorem snapshot_dict (entries : List (Scalar × Value)) :
    snapshot (.dict entries) = .dict (entries.map fun e => (e.1, e.2.snapshot)) := by
  have hentries : ∀ entries : List (Scalar × Value),
      snapshotEntries entries = entries.map fun e => (e.1, e.2.snapshot) := by
    intro entries
    induction entries with
    | nil => rfl
    | cons e rest ih => rw [snapshotEntries, ih, List.map_cons]
  rw [snapshot, hentries]

theorem exists_held_of_read {attributes : Entries String} {held : Entries Value} {e : Scalar × Value}
    (he : e ∈ attributes.filterMap fun a =>
      ((snapshotHeld held).lookup a.2).map fun v => (Scalar.str (.whole a.1), v)) :
    ∃ f ∈ held, e.2 = f.2.snapshot := by
  obtain ⟨a, -, hread⟩ := List.mem_filterMap.mp he
  obtain ⟨x, hx, rfl⟩ := Option.map_eq_some_iff.mp hread
  rw [snapshotHeld_eq_map] at hx
  obtain ⟨f, hf, heq⟩ := List.mem_map.mp (Entries.mem_of_lookup hx)
  exact ⟨f, hf, (congrArg Prod.snd heq).symm⟩

/-- No instance is within lists and dictionaries. -/
inductive InstanceFree : Value → Prop where
  | scalar (s : Scalar) : InstanceFree (.scalar s)
  | tuple (items : List Value) : InstanceFree (.tuple items)
  | list {items : List Value} (h : ∀ x ∈ items, InstanceFree x) : InstanceFree (.list items)
  | dict {entries : List (Scalar × Value)} (h : ∀ e ∈ entries, InstanceFree e.2) :
    InstanceFree (.dict entries)

theorem InstanceFree.ne_instance {v : Value} (h : v.InstanceFree) (serial : Option Nat)
    (model name : String) (attributes : Entries String) (held : Entries Value) :
    v ≠ .instance serial model name attributes held := by
  cases h <;> simp

theorem instanceFree_snapshot (v : Value) : v.snapshot.InstanceFree := by
  match v with
  | .scalar s => exact .scalar s
  | .tuple items => exact .tuple items
  | .list items =>
    rw [snapshot_list]
    refine .list fun x hx => ?_
    obtain ⟨y, hy, rfl⟩ := List.mem_map.mp hx
    have hsize := sizeOf_item (v := .list items) rfl hy
    exact instanceFree_snapshot y
  | .dict entries =>
    rw [snapshot_dict]
    refine .dict fun e he => ?_
    obtain ⟨f, hf, rfl⟩ := List.mem_map.mp he
    have hsize := sizeOf_value hf
    exact instanceFree_snapshot f.2
  | .instance serial model name attributes held =>
    refine .dict fun e he => ?_
    obtain ⟨f, hf, heq⟩ := exists_held_of_read he
    have hsize := sizeOf_held hf serial model name attributes
    exact heq ▸ instanceFree_snapshot f.2
termination_by v
decreasing_by all_goals exact hsize

theorem InstanceFree.snapshot_eq {v : Value} (h : v.InstanceFree) : v.snapshot = v := by
  induction h with
  | scalar | tuple => rfl
  | list _ ih =>
    rw [snapshot_list, List.map_congr_left ih]
    simp
  | dict _ ih =>
    have hentries : ∀ e : Scalar × Value, e.2.snapshot = e.2 → (e.1, e.2.snapshot) = e :=
      fun e he => Prod.ext rfl he
    rw [snapshot_dict, List.map_congr_left fun e he => hentries e (ih e he)]
    simp

theorem IsPlain.instanceFree {v : Value} (h : v.IsPlain) : v.InstanceFree := by
  induction h with
  | scalar s => exact .scalar s
  | list _ ih => exact .list ih
  | dict _ ih => exact .dict ih

theorem under?_map (entries : Entries Value) (key : String) :
    under? (entries.map fun p => (.str (.whole p.1), p.2.snapshot)) key =
      (entries.lookup key).map snapshot := by
  induction entries with
  | nil => rfl
  | cons p rest ih =>
    obtain ⟨k, x⟩ := p
    rw [List.map_cons, under?, List.lookup_cons, ih]
    by_cases h : k = key
    · simp [h]
    · have hne : (key == k) = false := beq_false_of_ne (Ne.symm h)
      simp [h, hne]

end Value

namespace Registry

/-- Everything that has to be there before a descriptor is used is there: names are registered, models
are sealed, maps hold models, and unions are of models with names that a class may have. -/
inductive Ready (r : Registry) : Descriptor → Prop where
  | basic (b : Basic) : Ready r (.basic b)
  | maybeNull (inner : Descriptor) : Ready r (.maybeNull inner)
  | array (item : Descriptor) : Ready r (.array item)
  | map {item : Descriptor} {m : Model} (h : r.record? item = some m) : Ready r (.map item)
  | scalar {key : String} {b : Basic} (h : r.find? key = some (.basic b)) : Ready r (.named key)
  | enumeration {key : String} {e : Enumeration} (h : r.find? key = some (.enumeration e)) :
    Ready r (.named key)
  | model {key : String} {m : Model} (h : r.find? key = some (.model m)) (isSealed : m.isSealed = true)
    (distinct : m.properties.keys.Nodup) : Ready r (.named key)
  | union {key : String} {u : Union} (h : r.find? key = some (.union u))
    (models : ∀ d ∈ u.alternatives, ∃ m, r.record? d = some m ∧ m.name.contains '\x00' = false) :
    Ready r (.named key)

/-- All that can be reached is ready. -/
def Complete (r : Registry) (d : Descriptor) : Prop := ∀ e, Relation.ReflTransGen r.Part d e → r.Ready e

/-- What a descriptor itself needs for snapshots to be loaded back. Unions may be of anything if their
names are finite and the models right among their alternatives have names that a class may have. -/
inductive Firm (r : Registry) : Descriptor → Prop where
  | ready {d : Descriptor} (h : r.Ready d) : Firm r d
  | union {key name : String} {u : Union} (h : r.find? key = some (.union u))
    (ends : r.typeName? (.named key) = some name)
    (names : ∀ d ∈ u.alternatives, ∀ m, r.record? d = some m → m.name.contains '\x00' = false) :
    Firm r (.named key)

/-- All that can be reached is firm. -/
def Loadable (r : Registry) (d : Descriptor) : Prop := ∀ e, Relation.ReflTransGen r.Part d e → r.Firm e

/-- No union can be reached. -/
def UnionFree (r : Registry) (d : Descriptor) : Prop :=
  ∀ key u, Relation.ReflTransGen r.Part d (.named key) → r.find? key ≠ some (.union u)

variable {r : Registry} {d e : Descriptor} {key : String} {m : Model}

theorem UnionFree.of_part (h : r.UnionFree d) (hp : r.Part d e) : r.UnionFree e :=
  fun key u hk => h key u (.head hp hk)

theorem eq_of_reach_basic {b : Basic} (h : Relation.ReflTransGen r.Part (.basic b) d) : d = .basic b := by
  cases h.cases_head with
  | inl heq => exact heq.symm
  | inr hstep =>
    obtain ⟨e, hpart, -⟩ := hstep
    cases hpart

theorem unionFree_basic (b : Basic) : r.UnionFree (.basic b) := by
  intro key u hk
  cases eq_of_reach_basic hk

theorem complete_basic (b : Basic) : r.Complete (.basic b) := by
  intro e he
  obtain rfl := eq_of_reach_basic he
  exact .basic b

theorem Complete.of_closed {S : Descriptor → Prop} (hready : ∀ d, S d → r.Ready d)
    (hpart : ∀ d e, S d → r.Part d e → S e) (hd : S d) : r.Complete d := by
  intro e he
  refine hready e ?_
  induction he with
  | refl => exact hd
  | tail _ hp ih => exact hpart _ _ ih hp

namespace Ready

theorem finished (h : r.Ready (.named key)) (hm : r.find? key = some (.model m)) :
    m.isSealed = true ∧ m.properties.keys.Nodup := by
  cases h with
  | scalar hk | enumeration hk | union hk => simp [hm] at hk
  | model hk isSealed distinct =>
    obtain rfl : m = _ := by simpa [hm] using hk
    exact ⟨isSealed, distinct⟩

theorem alternatives {u : Union} (h : r.Ready (.named key)) (hu : r.find? key = some (.union u)) :
    ∀ d ∈ u.alternatives, ∃ m, r.record? d = some m ∧ m.name.contains '\x00' = false := by
  cases h with
  | scalar hk | enumeration hk | model hk => simp [hu] at hk
  | union hk models =>
    obtain rfl : u = _ := by simpa [hu] using hk
    exact models

end Ready

namespace Firm

theorem finished (h : r.Firm (.named key)) (hm : r.find? key = some (.model m)) :
    m.isSealed = true ∧ m.properties.keys.Nodup := by
  cases h with
  | ready h => exact h.finished hm
  | union hk => simp [hm] at hk

theorem alternatives {u : Union} (h : r.Firm (.named key)) (hu : r.find? key = some (.union u)) :
    (∃ name, r.typeName? (.named key) = some name) ∧
      ∀ d ∈ u.alternatives, ∀ m, r.record? d = some m → m.name.contains '\x00' = false := by
  cases h with
  | ready h =>
    have hmodels := h.alternatives hu
    refine ⟨typeName?_union hu fun d hd => ?_, fun d hd m hm => ?_⟩
    · obtain ⟨m, hm, -⟩ := hmodels d hd
      exact ⟨m, hm⟩
    · obtain ⟨m', hm', hname⟩ := hmodels d hd
      obtain rfl := Option.some.inj (hm'.symm.trans hm)
      exact hname
  | union hk ends names =>
    obtain rfl : u = _ := by simpa [hu] using hk
    exact ⟨⟨_, ends⟩, names⟩

end Firm

theorem Complete.loadable (h : r.Complete d) : r.Loadable d := fun e he => .ready (h e he)

namespace Loadable

theorem of_part (h : r.Loadable d) (hp : r.Part d e) : r.Loadable e := fun f hf => h f (.head hp hf)

theorem model (h : r.Loadable (.named key)) (hm : r.find? key = some (.model m)) :
    m.isSealed = true ∧ m.properties.keys.Nodup := (h _ .refl).finished hm

theorem fit {u : Union} (h : r.Loadable (.named key)) (hu : r.find? key = some (.union u)) :
    ∀ d ∈ u.alternatives, ∀ m, r.record? d = some m → m.fault? = none := by
  intro d hd m hm
  have hname := ((h _ .refl).alternatives hu).2 d hd m hm
  obtain ⟨k, rfl, hfind⟩ := record?_eq_some_iff.mp hm
  obtain ⟨isSealed, -⟩ := (h.of_part (.alternative hu hd)).model hfind
  simp [Model.fault?, isSealed, hname]

/-- What is loadable has no part that runs into a fault by itself. -/
theorem spares (fault : Fault) : r.Spares fault r.Loadable where
  part h hp := h.of_part hp
  record h hnone := by
    cases h _ .refl with
    | ready h =>
      cases h with
      | map hm => simp [hnone] at hm
  found h hnone := by
    cases h _ .refl with
    | union hk => simp [hnone] at hk
    | ready h =>
      cases h with
      | scalar hk | enumeration hk | model hk | union hk => simp [hnone] at hk
  fit h hm hne hf := hne (fault?_of_isSealed (h.model hm).1 hf)
  ends h hu _ := ((h _ .refl).alternatives hu).1

theorem nests (h : r.Loadable d) : r.Nests r.entries.length d := (spares .endless).nests rfl h

end Loadable

theorem mem_of_identifier? {id : String} (h : m.identifier? = some id) :
    (id, Descriptor.identifier) ∈ m.properties := by
  obtain ⟨p, hp, rfl⟩ := List.mem_map.mp (List.mem_of_head? h)
  obtain ⟨hmem, his⟩ := List.mem_filter.mp hp
  have hd : p.2 = .identifier := by simpa [Descriptor.isIdentifier] using his
  exact hd ▸ hmem

/-- An instance of a model with an identifier has text there. -/
theorem Makes.exists_text (hm : r.find? key = some (.model m)) (distinct : m.properties.keys.Nodup)
    {id : String} (hid : m.identifier? = some id) {x : Value} (hx : r.Makes (.named key) x) :
    ∃ serial properties t, x = .record serial key m.name properties ∧
      Entries.keys properties = m.properties.keys ∧ properties.lookup id = some (.scalar (.str t)) := by
  obtain ⟨-, serial, properties, rfl, hrelated⟩ := hx.exists_instance hm
  have hproperties : (Entries.keys properties).Nodup := hrelated.keys_eq ▸ distinct
  obtain ⟨⟨name, value⟩, hq, hname, hmade⟩ := Entries.exists_rel_of_mem hrelated.flip (mem_of_identifier? hid)
  obtain rfl : id = name := hname
  obtain ⟨t, rfl⟩ : ∃ t, value = .scalar (.str t) := by
    cases hmade with
    | basic _ htakes => exact htakes
  exact ⟨serial, properties, t, rfl, hrelated.keys_eq.symm, Entries.lookup_of_mem hproperties hq⟩

theorem identifierOf?_record {properties : Entries Value} (same : properties.keys = m.properties.keys)
    (distinct : m.properties.keys.Nodup) {id : String} {t : Text}
    (h : properties.lookup id = some (.scalar (.str t))) (serial : Option Nat) (key : String) :
    Collection.identifierOf? (m.attributeName id) (.record serial key m.name properties) = some t := by
  have hid : id ∈ properties.keys := Entries.mem_keys_of_mem (Entries.mem_of_lookup h)
  rw [Collection.identifierOf?, Model.attributeName, ← same, Value.attribute?_record (same ▸ distinct) hid, h]

/-- What a snapshot is built into has the identifier of the instance that the snapshot is of. -/
theorem identifierOf?_reload (hm : r.find? key = some (.model m)) (distinct : m.properties.keys.Nodup)
    {id : String} (hid : m.identifier? = some id) {unions : Nat} {x y : Value}
    (hx : r.Makes (.named key) x) (h : r.validate unions (.named key) x.snapshot = .ok y) :
    Collection.identifierOf? (m.attributeName id) y = Collection.identifierOf? (m.attributeName id) x := by
  obtain ⟨hf, -⟩ := hx.exists_instance hm
  obtain ⟨serial, properties, t, rfl, hsame, hlookup⟩ := hx.exists_text hm distinct hid
  have hmem := mem_of_identifier? hid
  -- The same text is found in the snapshot, and an identifier keeps it.
  rw [Value.snapshot_record (hsame ▸ distinct)] at h
  obtain ⟨-, vs, hvs, rfl⟩ := (validate_dict_eq_ok_iff hm hf).mp h
  have hbuilt := Entries.forall₂_zip_keys hvs
  have hkeys : Entries.keys (m.properties.keys.zip vs) = m.properties.keys := by
    have hrelated : Entries.Related (fun _ _ => True) m.properties (m.properties.keys.zip vs) :=
      hbuilt.imp fun _ _ h => ⟨h.1, trivial⟩
    exact hrelated.keys_eq.symm
  obtain ⟨⟨name, value⟩, hp, hname, hpart⟩ := Entries.exists_rel_of_mem hbuilt.flip hmem
  obtain rfl : id = name := hname
  obtain rfl : value = .scalar (.str t) := by
    rw [part, Value.under?_map, hlookup] at hpart
    have hcheck := embed_eq_ok_iff.mp hpart
    rw [check, validate_basic] at hcheck
    exact (Basic.validate_eq_ok_iff.mp hcheck).1
  have hlookup' : (m.properties.keys.zip vs).lookup id = some (.scalar (.str t)) :=
    Entries.lookup_of_mem (by rwa [hkeys]) hp
  rw [Model.build, identifierOf?_record hkeys distinct hlookup', identifierOf?_record hsame distinct hlookup]

/-- With or without an identifier, an instance is indexed as the one that its snapshot is built into. -/
theorem own_reload (hm : r.find? key = some (.model m)) (distinct : m.properties.keys.Nodup) {x y : Value}
    (hx : r.Makes (.named key) x) (h : r.check (.named key) x.snapshot = .ok y) :
    m.identifierName?.bind (Collection.identifierOf? · y) =
      m.identifierName?.bind (Collection.identifierOf? · x) := by
  unfold Model.identifierName?
  cases hid : m.identifier? with
  | none => rfl
  | some id => exact identifierOf?_reload hm distinct hid hx h

variable {v w : Value}

/-- The descriptor accepts the snapshot of the value. Unless a union takes another alternative, the same
snapshot comes of it. -/
def Reloads (r : Registry) (unions : Nat) (d : Descriptor) (w : Value) : Prop :=
  ∃ w', r.validate unions d w.snapshot = .ok w' ∧ (r.UnionFree d → w'.snapshot = w.snapshot)

section Layers

variable {unions : Nat}

theorem reloads_basic {b : Basic} (hb : b ≠ .frozen) (h : b.Takes v) : r.Reloads unions (.basic b) v := by
  obtain ⟨s, rfl⟩ := h.exists_scalar hb
  refine ⟨.scalar s, ?_, fun _ => rfl⟩
  rw [validate_basic]
  exact Basic.validate_eq_ok_iff.mpr ⟨rfl, h⟩

theorem reloads_opaque (v : Value) : r.Reloads unions (.basic .frozen) v := by
  refine ⟨v.snapshot, ?_, fun _ => v.instanceFree_snapshot.snapshot_eq⟩
  rw [validate_basic]
  rfl

theorem Reloads.present {inner : Descriptor} (h : r.Reloads unions inner v) :
    r.Reloads unions (.maybeNull inner) v := by
  by_cases hnull : v.snapshot = .null
  · refine ⟨.null, ?_, fun _ => hnull.symm⟩
    rw [hnull]
    exact validate_maybeNull_null inner
  · obtain ⟨w', hw', hsame⟩ := h
    refine ⟨w', ?_, fun hu => hsame (hu.of_part (.maybeNull inner))⟩
    rw [validate_maybeNull hnull]
    exact embed_eq_ok_iff.mpr hw'

theorem reloads_list {item : Descriptor} {items : List Value}
    (h : ∀ x ∈ items, r.Reloads r.entries.length item x) : r.Reloads unions (.array item) (.list items) := by
  obtain ⟨ws, hws⟩ := Entries.exists_forall₂ h
  refine ⟨.list ws, ?_, fun hu => ?_⟩
  · rw [Value.snapshot_list, validate_list_eq_ok_iff]
    refine ⟨ws, ?_, rfl⟩
    rw [List.forall₂_map_left_iff]
    exact hws.imp fun _ _ h => h.1
  · rw [Value.snapshot_list, Value.snapshot_list]
    congr 1
    exact Entries.map_eq_of_forall₂ (hws.imp fun _ _ h => h.2 (hu.of_part (.array item)))

/-- A collection is loaded entry by entry, and no key changes. -/
theorem reloads_collection {made : List (Text × Value)} (hm : r.find? key = some (.model m))
    (hkeys : m.properties.keys.Nodup) (distinct : (made.map Prod.fst).Nodup)
    (agrees : ∀ e ∈ made, Collection.entryKey (m.identifierName?.bind (Collection.identifierOf? · e.2))
      (some (.str e.1)) = .ok e.1)
    (hmade : ∀ e ∈ made, r.Makes (.named key) e.2)
    (h : ∀ e ∈ made, r.Reloads r.entries.length (.named key) e.2) :
    r.Reloads unions (.map (.named key)) (Collection.toDict made) := by
  have hentry : ∀ e ∈ made, ∃ e' : Text × Value,
      Collection.Enters m.identifierName? (some (.str e.1), r.check (.named key) e.2.snapshot) e' ∧
        e'.1 = e.1 ∧ (r.UnionFree (.named key) → e'.2.snapshot = e.2.snapshot) := by
    intro e he
    obtain ⟨x, hx, hsame⟩ := h e he
    refine ⟨(e.1, x), ⟨hx, ?_⟩, rfl, hsame⟩
    rw [own_reload hm hkeys (hmade e he) hx]
    exact agrees e he
  obtain ⟨made', hmade'⟩ := Entries.exists_forall₂ hentry
  have hnames : made'.map Prod.fst = made.map Prod.fst :=
    Entries.map_eq_of_forall₂ (hmade'.imp fun _ _ h => h.2.1)
  refine ⟨Collection.toDict made', ?_, fun hu => ?_⟩
  · rw [Collection.toDict, Value.snapshot_dict, List.map_map, validate_map_eq_ok_iff hm]
    refine ⟨made', hnames ▸ distinct, ?_, rfl⟩
    rw [List.forall₂_map_left_iff]
    exact hmade'.imp fun _ _ h => h.1
  · rw [Collection.toDict, Collection.toDict, Value.snapshot_dict, Value.snapshot_dict, List.map_map,
      List.map_map]
    congr 1
    refine Entries.map_eq_of_forall₂ (hmade'.imp fun e e' h => ?_)
    obtain ⟨-, hname, hsame⟩ := h
    simp [hname, hsame (hu.of_part (.map (.named key)))]

/-- The properties of an instance are found in its snapshot, each under its own name. -/
theorem reloads_record {properties : Entries Value} (hm : r.find? key = some (.model m))
    (hf : m.fault? = none) (hkeys : m.properties.keys.Nodup)
    (same : Entries.keys properties = m.properties.keys)
    (h : ∀ e ∈ m.properties.zip properties, r.Reloads r.entries.length e.1.2 e.2.2) (serial : Option Nat) :
    r.Reloads unions (.named key) (.record serial key m.name properties) := by
  have hproperties : (Entries.keys properties).Nodup := same ▸ hkeys
  have hlength : m.properties.length = properties.length := by
    simpa [Entries.keys] using (congrArg List.length same).symm
  have hnames : Entries.Related (fun _ _ => True) m.properties properties :=
    Entries.related_iff_zip.mpr ⟨same, fun _ _ => trivial⟩
  let entries : List (Scalar × Value) := properties.map fun p => (.str (.whole p.1), p.2.snapshot)
  have hparts : ∀ e ∈ m.properties.zip properties, ∃ x, r.part entries e.1 = .ok x ∧
      (r.UnionFree (.named key) → x.snapshot = e.2.2.snapshot) := by
    intro e he
    obtain ⟨x, hx, hsame⟩ := h e he
    refine ⟨x, ?_, fun hu => hsame (hu.of_part (.property hm (List.of_mem_zip he).1))⟩
    have hname : e.1.1 = e.2.1 := (List.forall₂_zip hnames he).1
    have hlookup : properties.lookup e.1.1 = some e.2.2 := by
      rw [hname]
      exact Entries.lookup_of_mem hproperties (List.of_mem_zip he).2
    rw [part, Value.under?_map, hlookup]
    exact embed_eq_ok_iff.mpr hx
  obtain ⟨xs, hxs, hsame⟩ := Entries.exists_forall₂_zip (P := fun p x => r.part entries p = .ok x)
    (Q := fun q x => r.UnionFree (.named key) → x.snapshot = q.2.snapshot) hlength hparts
  have hzip : Entries.keys (m.properties.keys.zip xs) = m.properties.keys := by
    refine List.map_fst_zip ?_
    simp [Entries.keys, hxs.length_eq]
  refine ⟨m.build key xs, ?_, fun hu => ?_⟩
  · rw [Value.snapshot_record hproperties, validate_dict_eq_ok_iff hm hf]
    refine ⟨fun e he => ?_, xs, hxs, rfl⟩
    obtain ⟨p, hp, rfl⟩ := List.mem_map.mp he
    exact ⟨p.1, same ▸ Entries.mem_keys_of_mem hp, rfl⟩
  · rw [Model.build, Value.snapshot_record (by rwa [hzip]), Value.snapshot_record hproperties, ← same]
    congr 1
    refine Entries.map_eq_of_forall₂ ((Entries.forall₂_zip_keys hsame).imp fun p q h => ?_)
    obtain ⟨hname, hsnapshot⟩ := h
    rw [hname, hsnapshot hu]

/-- A union may take another alternative for the snapshot, but it takes one. -/
theorem reloads_alternative {u : Union} {n : Nat} (hu : r.find? key = some (.union u))
    (hd : r.Loadable (.named key)) (hnests : ∀ a ∈ u.alternatives, r.Nests n a) {a : Descriptor}
    (ha : a ∈ u.alternatives) (h : r.Reloads n a v) : r.Reloads (n + 1) (.named key) v := by
  obtain ⟨⟨name, hname⟩, -⟩ := (hd _ .refl).alternatives hu
  have hfit := hd.fit hu
  have hends : ∀ a ∈ u.alternatives, r.nameEnds a = true := fun a ha =>
    nameEnds_alternative (nameEnds_of_typeName? hname) hu ha
  have havoids : ∀ part ∈ u.alternatives.map fun a => r.onItsOwn a (r.validate n a v.snapshot),
      ∀ fault, Outcome.Avoids fault part := by
    intro part hpart fault
    obtain ⟨a, ha, rfl⟩ := List.mem_map.mp hpart
    have hmodel : r.Fit fault a := fun m hm => by simp [hfit a ha m hm]
    refine avoids_onItsOwn (fun _ => hends a ha) ?_
    exact (Loadable.spares fault).avoids_validate (hd.of_part (.alternative hu ha)) hmodel
      (fun _ => hnests a ha) _
  obtain ⟨w', hw', -⟩ := h
  have haccepts : .ok w' ∈ u.alternatives.map fun a => r.onItsOwn a (r.validate n a v.snapshot) := by
    refine List.mem_map.mpr ⟨a, ha, ?_⟩
    rw [onItsOwn_of_nameEnds (hends a ha), hw']
  obtain ⟨w'', hw''⟩ := Outcome.exists_first_eq_ok havoids haccepts
  refine ⟨w'', ?_, fun hfree => absurd hu (hfree key u .refl)⟩
  rw [validate, hu]
  simp only [isInstanceOf_of_ne v.instanceFree_snapshot.ne_instance hfit, hname]
  exact hw''

end Layers

/-- The snapshot of a value is accepted by a descriptor that can make the value. -/
theorem Makes.reload_of_nests (hw : r.Makes d w) (hd : r.Loadable d) {unions : Nat} (hn : r.Nests unions d) :
    r.Reloads unions d w := by
  induction hw generalizing unions with
  | basic hb htakes => exact reloads_basic hb htakes
  | opaqueScalar | opaqueList | opaqueTuple | opaqueDict | opaqueInstance => exact reloads_opaque _
  | null inner => exact ⟨.null, validate_maybeNull_null inner, fun _ => rfl⟩
  | @present inner v _ ih => exact (ih (hd.of_part (.maybeNull inner)) hn.inner).present
  | @array item items _ ih =>
    have hitem := hd.of_part (.array item)
    exact reloads_list fun x hx => ih x hx hitem hitem.nests
  | @map key m made hm distinct agrees hv ih =>
    have hmodel := hd.of_part (.map (.named key))
    exact reloads_collection hm (hmodel.model hm).2 distinct agrees hv fun e he => ih e he hmodel hmodel.nests
  | @scalar key b v hb _ ih =>
    obtain ⟨w', hw', hsame⟩ := ih (complete_basic b).loadable (.basic unions b)
    refine ⟨w', ?_, fun _ => hsame (unionFree_basic b)⟩
    rw [validate_named_basic hb, ← validate_basic]
    exact hw'
  | @enumeration key e s he hs =>
    refine ⟨.str s, ?_, fun _ => rfl⟩
    rw [Value.snapshot, validate_named_enumeration he]
    exact Enumeration.validate_eq_ok_iff.mpr ⟨rfl, s, hs, rfl⟩
  | @model key m serial properties hm hf same hv ih =>
    refine reloads_record hm hf (hd.model hm).2 same (fun e he => ?_) serial
    have hpart := hd.of_part (.property hm (List.of_mem_zip he).1)
    exact ih e he hpart hpart.nests
  | @union key u d v hu ha _ ih =>
    obtain ⟨n, rfl, hnests⟩ := hn.alternatives hu
    exact reloads_alternative hu hd hnests ha (ih (hd.of_part (.alternative hu ha)) (hnests d ha))

theorem Makes.reload (hw : r.Makes d w) (hd : r.Complete d) {unions : Nat} (hn : r.entries.length ≤ unions) :
    r.Reloads unions d w := hw.reload_of_nests hd.loadable (hd.loadable.nests.mono hn)

theorem Makes.input_snapshot (hw : r.Makes d w) : r.input d w.snapshot = w.snapshot := by
  unfold input
  split
  · next hnull hm =>
    obtain ⟨key, rfl, hfind⟩ := record?_eq_some_iff.mp hm
    obtain ⟨-, serial, properties, rfl, -⟩ := hw.exists_instance hfind
    cases hnull
  · rfl

/-- Whatever a descriptor made can be written as plain data and loaded back: its snapshot has no
instances, and the descriptor accepts it. Where no union is in reach, the snapshot of what is then made
is the same again. -/
theorem create_snapshot (hd : r.Complete d) (hv : r.Given v) (h : r.create d v = .ok w) :
    w.snapshot.InstanceFree ∧ r.isValid d w.snapshot = .ok true ∧
      ∃ w', r.create d w.snapshot = .ok w' ∧ (r.UnionFree d → w'.snapshot = w.snapshot) := by
  have hmade : r.Makes d w := makes_of_create hv.opaque_makes h
  obtain ⟨w', hw', hsame⟩ := hmade.reload hd (Nat.le_refl _)
  obtain ⟨hends, -⟩ := create_eq_ok_iff.mp h
  refine ⟨w.instanceFree_snapshot, ?_, w', ?_, hsame⟩
  · rw [isValid, convert_eq_ok_iff.mpr ⟨hends, hw'⟩]
  · rw [create_eq_ok_iff, hmade.input_snapshot]
    exact ⟨hends, hw'⟩

/-- A record that refers to itself. -/
theorem create_snapshot_node :
    let r : Registry := ⟨[("Node", .model ⟨"Node", [("next", .maybeNull (.named "Node"))], true⟩)]⟩
    let v : Value := .dict [(.str (.whole "next"), .dict [])]
    let leaf : Value := .record none "Node" "Node" [("next", .null)]
    let w : Value := .record none "Node" "Node" [("next", leaf)]
    r.Complete (.named "Node") ∧ r.Given v ∧ r.create (.named "Node") v = .ok w ∧
      w.snapshot.InstanceFree ∧ r.isValid (.named "Node") w.snapshot = .ok true ∧
      ∃ w', r.create (.named "Node") w.snapshot = .ok w' ∧
        (r.UnionFree (.named "Node") → w'.snapshot = w.snapshot) := by
  intro r v leaf w
  have hfind : r.find? "Node" = some (.model ⟨"Node", [("next", .maybeNull (.named "Node"))], true⟩) := rfl
  have hfault : (⟨"Node", [("next", .maybeNull (.named "Node"))], true⟩ : Model).fault? = none := by
    simp [Model.fault?]
  have hcomplete : r.Complete (.named "Node") := by
    refine .of_closed (S := fun d => d = .named "Node" ∨ d = .maybeNull (.named "Node")) ?_ ?_ (.inl rfl)
    · rintro d (rfl | rfl)
      · exact .model hfind rfl (by decide)
      · exact .maybeNull _
    · rintro d e (rfl | rfl) hpart
      · cases hpart with
        | property h hp =>
          cases hfind.symm.trans h
          exact .inr (by simpa using congrArg Prod.snd (List.mem_singleton.mp hp))
        | alternative h _ => cases hfind.symm.trans h
      · cases hpart
        exact .inl rfl
  have hgiven : r.Given v := .dict (by simpa using .dict (by simp))
  have hleaf : r.check (.named "Node") (.dict []) = .ok leaf := by
    refine (validate_dict_eq_ok_iff hfind hfault).mpr ⟨by simp, [.null], ?_, rfl⟩
    exact .cons rfl .nil
  have hcreate : r.create (.named "Node") v = .ok w := by
    have hnext : r.check (.maybeNull (.named "Node")) (.dict []) = .ok leaf := by
      rw [check, validate_maybeNull (by simp)]
      exact embed_eq_ok_iff.mpr hleaf
    refine create_eq_ok_iff.mpr ⟨rfl, (validate_dict_eq_ok_iff hfind hfault).mpr ⟨?_, [leaf], ?_, rfl⟩⟩
    · simp [Entries.keys]
    · refine .cons ?_ .nil
      simp only [part, Value.under?, if_pos]
      exact embed_eq_ok_iff.mpr hnext
  exact ⟨hcomplete, hgiven, hcreate, create_snapshot hcomplete hgiven hcreate⟩

/-- Behind a model that can be used, a union finds an instance of it without looking further, but for the
snapshot it comes to the next alternative, of whose name no class can be made. -/
theorem isValid_snapshot_null_in_name :
    let r : Registry := ⟨[("A", .model ⟨"A", [("x", .maybeNull .string)], true⟩),
      ("B", .model ⟨"B\x00", [], true⟩),
      ("U", .union { alternatives := [.named "A", .named "B"], isSealed := true })]⟩
    let a : Value := .record none "A" "A" [("x", .null)]
    r.create (.named "A") (.dict []) = .ok a ∧ r.create (.named "U") a = .ok a ∧
      r.isValid (.named "U") a.snapshot = .ok false := by
  intro r a
  let u : Union := { alternatives := [.named "A", .named "B"], isSealed := true }
  have hA : r.find? "A" = some (.model ⟨"A", [("x", .maybeNull .string)], true⟩) := rfl
  have hU : r.find? "U" = some (.union u) := rfl
  have hfault : (⟨"A", [("x", .maybeNull .string)], true⟩ : Model).fault? = none := by
    simp [Model.fault?]
  have hname : (⟨"B\x00", [], true⟩ : Model).fault? = some .nullInName := by simp [Model.fault?]
  refine ⟨?_, ?_, ?_⟩
  · refine create_eq_ok_iff.mpr ⟨rfl, (validate_dict_eq_ok_iff hA hfault).mpr ⟨by simp, [.null], ?_, rfl⟩⟩
    exact .cons rfl .nil
  · have hinstance : r.isInstanceOf a u.alternatives = .ok true := by
      simp [u, isInstanceOf, record?_named hA, hfault, a, Value.record]
    exact create_eq_ok_iff.mpr ⟨rfl, check_union_instance hU hinstance⟩
  · have hB : r.record? (.named "B") = some ⟨"B\x00", [], true⟩ := rfl
    have hplain : r.isInstanceOf a.snapshot u.alternatives = Outcome.reject .nullInName := by
      simp [u, isInstanceOf, record?_named hA, hfault, hB, hname, a, Value.record, Value.snapshot]
    have hcheck : r.check (.named "U") a.snapshot = Outcome.reject .nullInName := check_union_error hU hplain
    rw [isValid, convert, onItsOwn_of_nameEnds rfl, hcheck]
    rfl

end Registry

end CheckedModels
