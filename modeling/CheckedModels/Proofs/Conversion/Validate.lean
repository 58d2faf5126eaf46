import CheckedModels.Conversion.Create
import CheckedModels.Proofs.Conversion.Outcome
import CheckedModels.Proofs.Conversion.RecordClass
import CheckedModels.Proofs.Registry.Nesting

/-! Validation of single layers of a descriptor, and what can go wrong with definitions that are all
sealed. -/
namespace CheckedModels.Registry

variable {r : Registry} {unions : Nat} {key : String}

theorem validate_basic (b : Basic) (v : Value) : r.validate unions (.basic b) v = b.validate v := by
  rw [validate]

theorem validate_maybeNull_null (inner : Descriptor) :
    r.validate unions (.maybeNull inner) .null = .ok .null := by
  rw [validate]

theorem validate_maybeNull {v : Value} (h : v ≠ .null) (inner : Descriptor) :
    r.validate unions (.maybeNull inner) v = r.embed inner (r.validate unions inner v) := by
  rw [validate]
  exact h

theorem validate_array {v : Value} {items : List Value} (h : v.items? = some items) (item : Descriptor) :
    r.validate unions (.array item) v = .list <$>
      Outcome.gather (items.mapIdx fun i x => (Step.index i, r.embed item (r.check item x))) := by
  have hattach : items.attach.mapIdx (fun i x => (Step.index i, r.embed item (r.check item x.1))) =
      items.mapIdx fun i x => (Step.index i, r.embed item (r.check item x)) := by
    exact List.ext_getElem (by simp) fun i _ _ => by simp
  rw [validate]
  split
  · next given hgiven =>
    obtain rfl := Option.some.inj (hgiven.symm.trans h)
    exact congrArg (fun parts => Value.list <$> Outcome.gather parts) hattach
  · next hnone => cases hnone.symm.trans h

theorem validate_array_of_none {v : Value} (h : v.items? = none) (item : Descriptor) :
    r.validate unions (.array item) v = Outcome.reject .notList := by
  rw [validate]
  split
  · next hsome => cases hsome.symm.trans h
  · rfl

/-- What an entry makes of a property. -/
def part (r : Registry) (entries : List (Scalar × Value)) (p : String × Descriptor) : Outcome :=
  match Value.under? entries p.1 with
  | some x => r.embed p.2 (r.check p.2 x)
  | none => Model.omitted p.2

theorem part_of_some {entries : List (Scalar × Value)} {p : String × Descriptor} {x : Value}
    (h : Value.under? entries p.1 = some x) : r.part entries p = r.embed p.2 (r.check p.2 x) := by
  rw [part, h]

theorem part_of_none {entries : List (Scalar × Value)} {p : String × Descriptor}
    (h : Value.under? entries p.1 = none) : r.part entries p = Model.omitted p.2 := by
  rw [part, h]

theorem validate_fault {m : Model} (h : r.find? key = some (.model m)) {fault : Fault}
    (hf : m.fault? = some fault) (v : Value) :
    r.validate unions (.named key) v = Outcome.broken fault := by
  rw [validate, h]
  simp only [hf]

theorem validate_dict {m : Model} (h : r.find? key = some (.model m)) (hf : m.fault? = none)
    (entries : List (Scalar × Value)) :
    r.validate unions (.named key) (.dict entries) = m.toClass.build key <$> RecordClass.settle entries
      (Outcome.gather ((m.properties.map fun p => (Step.key p.1, r.part entries p)) ++
        m.toClass.strays entries)) := by
  rw [validate, h]
  simp only [hf]
  congr 4
  rw [Model.toClass, List.map_map]
  refine List.map_congr_left fun p _ => ?_
  simp only [Function.comp_apply, part, check, ← m.key_field p, ← m.omitted_field p]
  split <;> simp_all [Model.field]

theorem validate_not_model {m : Model} (h : r.find? key = some (.model m)) (hf : m.fault? = none)
    {v : Value} (hd : ∀ entries, v ≠ .dict entries) (hi : ∀ a b c d e, v ≠ .instance a b c d e) :
    r.validate unions (.named key) v = Outcome.reject (.notModel m.name) := by
  rw [validate, h]
  simp only [hf]

theorem validate_instance {m : Model} (h : r.find? key = some (.model m)) (hf : m.fault? = none)
    (serial : Option Nat) (name : String) (attributes : Entries String) (held : Entries Value) :
    r.validate unions (.named key) (.instance serial key name attributes held) =
      .ok (.instance serial key name attributes held) := by
  rw [validate, h]
  simp only [hf, if_true]

theorem validate_named_basic {b : Basic} (h : r.find? key = some (.basic b)) (v : Value) :
    r.validate unions (.named key) v = b.validate v := by
  rw [validate, h]

theorem validate_named_enumeration {e : Enumeration} (h : r.find? key = some (.enumeration e))
    (v : Value) : r.validate unions (.named key) v = e.validate v := by
  rw [validate, h]

/-- The second descriptor is a direct part of the first, or of the definition that the first refers to. -/
inductive Part (r : Registry) : Descriptor → Descriptor → Prop where
  | maybeNull (inner : Descriptor) : Part r (.maybeNull inner) inner
  | array (item : Descriptor) : Part r (.array item) item
  | map (item : Descriptor) : Part r (.map item) item
  | property {key : String} {m : Model} {p : String × Descriptor} (h : r.find? key = some (.model m))
    (hp : p ∈ m.properties) : Part r (.named key) p.2
  | alternative {key : String} {u : Union} {d : Descriptor} (h : r.find? key = some (.union u))
    (hd : d ∈ u.alternatives) : Part r (.named key) d

theorem record?_eq_some_iff {d : Descriptor} {m : Model} :
    r.record? d = some m ↔ ∃ key, d = .named key ∧ r.find? key = some (.model m) := by
  cases d with
  | named key =>
    simp only [record?, model?]
    split <;> simp_all
  | basic | maybeNull | array | map => simp [record?]

theorem record?_named {m : Model} (h : r.find? key = some (.model m)) : r.record? (.named key) = some m :=
  record?_eq_some_iff.mpr ⟨key, rfl, h⟩

theorem Nests.of_record {d : Descriptor} {m : Model} (h : r.record? d = some m) (n : Nat) : r.Nests n d := by
  obtain ⟨key, rfl, hfind⟩ := record?_eq_some_iff.mp h
  exact .other fun u hu => by simp [hfind] at hu

/-- Unions with finite names nest no deeper than there are definitions. -/
theorem nests_named
    (h : ∀ u, r.find? key = some (.union u) → ∃ name, r.typeName? (.named key) = some name) :
    r.Nests r.entries.length (.named key) := by
  by_cases hu : ∃ u, r.find? key = some (.union u)
  · obtain ⟨u, hu⟩ := hu
    obtain ⟨name, hname⟩ := h u hu
    exact .of_nameEnds (nameEnds_of_typeName? hname)
  · exact .other fun u hfind => hu ⟨u, hfind⟩

theorem onItsOwn_of_nameEnds {d : Descriptor} (h : r.nameEnds d = true) (part : Outcome) :
    r.onItsOwn d part = part := if_pos h

theorem onItsOwn_endless {d : Descriptor} (h : r.nameEnds d = false) (part : Outcome) :
    r.onItsOwn d part = Outcome.broken .endless := by
  simp [onItsOwn, h]

theorem nameEnds_of_record {d : Descriptor} {m : Model} (h : r.record? d = some m) : r.nameEnds d = true := by
  obtain ⟨key, rfl, hfind⟩ := record?_eq_some_iff.mp h
  exact nameEnds_of_not_union (by simp [hfind])

/-- Once all unions can be entered, the bound on them does not matter. -/
theorem Nests.validate_eq {d : Descriptor} {n k : Nat} (h : r.Nests n d) (hk : n ≤ k) (v : Value) :
    r.validate n d v = r.validate k d v := by
  induction h generalizing k with
  | basic _ b => rw [validate_basic, validate_basic]
  | array _ item =>
    cases hv : v.items? with
    | none => rw [validate_array_of_none hv, validate_array_of_none hv]
    | some items => rw [validate_array hv, validate_array hv]
  | map => rw [validate, validate]
  | @maybeNull n inner _ ih =>
    by_cases hv : v = .null
    · rw [hv, validate_maybeNull_null, validate_maybeNull_null]
    · rw [validate_maybeNull hv, validate_maybeNull hv, ih hk]
  | @other n key hne =>
    rw [validate, validate]
    cases hfind : r.find? key with
    | none => rfl
    | some definition =>
      cases definition with
      | union u => exact absurd hfind (hne u)
      | basic | enumeration | model => rfl
  | @union n key u hu _ ih =>
    obtain ⟨k, rfl⟩ := Nat.exists_eq_add_one.mpr (Nat.lt_of_lt_of_le (Nat.succ_pos _) hk)
    have hparts : u.alternatives.map (fun a => r.onItsOwn a (r.validate n a v)) =
        u.alternatives.map fun a => r.onItsOwn a (r.validate k a v) :=
      List.map_congr_left fun a ha => congrArg _ (ih a ha (Nat.le_of_succ_le_succ hk))
    rw [validate, validate, hu]
    simp only [hparts]

theorem check_union_instance {u : Union} {v : Value} (hu : r.find? key = some (.union u))
    (h : r.isInstanceOf v u.alternatives = .ok true) : r.check (.named key) v = .ok v := by
  rw [check, validate, hu]
  simp only [h]

/-- A model among the alternatives that cannot be used may keep a union from looking any further. -/
theorem check_union_error {u : Union} {v : Value} {e : Failure} (hu : r.find? key = some (.union u))
    (h : r.isInstanceOf v u.alternatives = .error e) : r.check (.named key) v = .error e := by
  rw [check, validate, hu]
  simp only [h]

/-- A union whose first alternative has no finite name comes to no end. -/
theorem check_union_endless {u : Union} {v : Value} {d : Descriptor} {rest : List Descriptor}
    (hu : r.find? key = some (.union u)) (hfirst : u.alternatives = d :: rest)
    (hv : r.isInstanceOf v u.alternatives = .ok false) (hends : r.nameEnds d = false) :
    r.check (.named key) v = Outcome.broken .endless := by
  rw [check, validate, hu]
  simp only [hv]
  split
  · rfl
  · rw [hfirst, List.map_cons, onItsOwn_endless hends]
    rfl

/-- A value that is no instance of an alternative is tried on one alternative after the other. -/
theorem check_union {u : Union} {name : String} {v : Value} (hu : r.find? key = some (.union u))
    (hname : r.typeName? (.named key) = some name) (hv : r.isInstanceOf v u.alternatives = .ok false) :
    r.check (.named key) v =
      Outcome.first (Outcome.reject (.noAlternative name)) (u.alternatives.map fun a => r.check a v) := by
  have hends := nameEnds_of_typeName? hname
  obtain ⟨n, hn, hall⟩ := (Nests.of_nameEnds hends).alternatives hu
  have hparts : u.alternatives.map (fun a => r.onItsOwn a (r.validate n a v)) =
      u.alternatives.map fun a => r.check a v := by
    refine List.map_congr_left fun a ha => ?_
    rw [onItsOwn_of_nameEnds (nameEnds_alternative hends hu ha)]
    exact (hall a ha).validate_eq (by omega) v
  rw [check, hn, validate, hu]
  simp only [hv, hname, hparts]

variable {fault : Fault}

theorem avoids_basic (b : Basic) (v : Value) : Outcome.Avoids fault (b.validate v) := by
  unfold Basic.validate
  split <;> first | exact Outcome.avoids_ok _ | exact Outcome.avoids_reject _ | simp [Outcome.Avoids]

theorem avoids_enumeration (e : Enumeration) (v : Value) : Outcome.Avoids fault (e.validate v) := by
  unfold Enumeration.validate
  repeat' split
  all_goals first | exact Outcome.avoids_ok _ | exact Outcome.avoids_reject _

theorem avoids_embed {x : Outcome} {d : Descriptor}
    (h : (fault = .nullInName → r.record? d = none) → Outcome.Avoids fault x) :
    Outcome.Avoids fault (r.embed d x) := by
  unfold embed
  split
  · exact Outcome.avoids_embed (fun hne => h fun heq => absurd heq hne) _
  · next hnone => exact h fun _ => hnone

theorem avoids_onItsOwn {x : Outcome} {d : Descriptor} (hends : .endless = fault → r.nameEnds d = true)
    (h : Outcome.Avoids fault x) : Outcome.Avoids fault (r.onItsOwn d x) := by
  unfold onItsOwn
  split
  · exact h
  · next hname => exact Outcome.avoids_broken fun he => hname (hends he)

theorem avoids_omitted (d : Descriptor) : Outcome.Avoids fault (Model.omitted d) := by
  unfold Model.omitted
  split
  · exact Outcome.avoids_ok _
  · exact Outcome.avoids_reject _

theorem exists_cause_of_mem_strays {c : RecordClass} {entries : List (Scalar × Value)}
    {part : Step × Outcome} (h : part ∈ c.strays entries) : ∃ cause, part.2 = Outcome.reject cause := by
  obtain ⟨⟨key, x⟩, -, he⟩ := List.mem_filterMap.mp h
  dsimp only at he
  split at he
  · obtain ⟨-, rfl⟩ : _ ∧ _ = part := by simpa using he
    exact ⟨_, rfl⟩
  · obtain rfl := Option.some.inj he
    exact ⟨_, rfl⟩

theorem avoids_stray {c : RecordClass} {entries : List (Scalar × Value)} {part : Step × Outcome}
    (h : part ∈ c.strays entries) : Outcome.Avoids fault part.2 := by
  obtain ⟨cause, hcause⟩ := exists_cause_of_mem_strays h
  rw [hcause]
  exact Outcome.avoids_reject cause

theorem avoids_settle {parts : Except Failure (List Value)} (h : Outcome.Avoids fault parts)
    (entries : List (Scalar × Value)) : Outcome.Avoids fault (RecordClass.settle entries parts) := by
  unfold RecordClass.settle
  split
  · exact h
  · split
    · exact Outcome.avoids_reject _
    · exact h

theorem avoids_isInstanceOf {ds : List Descriptor}
    (h : fault ≠ .nullInName → ∀ d ∈ ds, ∀ m, r.record? d = some m → m.fault? ≠ some fault) (v : Value) :
    Outcome.Avoids fault (r.isInstanceOf v ds) := by
  induction ds with
  | nil => exact Outcome.avoids_ok _
  | cons d rest ih =>
    have hrest := ih fun hne d hd => h hne d (List.mem_cons_of_mem _ hd)
    unfold isInstanceOf
    split
    · next m hm =>
      split
      · exact Outcome.avoids_reject _
      · next other hother hf =>
        refine Outcome.avoids_broken ?_
        rintro rfl
        exact h hother _ List.mem_cons_self m hm hf
      · split
        · split
          · exact Outcome.avoids_ok _
          · exact hrest
        · exact hrest
    · exact hrest

theorem length_pos_of_find? {d : Definition} (h : r.find? key = some d) : 0 < r.entries.length := by
  obtain ⟨before, after, hentries, -⟩ := List.lookup_eq_some_iff.mp h
  rw [hentries, List.length_append, List.length_cons]
  omega

theorem typeName?_union {u : Union} (h : r.find? key = some (.union u))
    (hu : ∀ d ∈ u.alternatives, ∃ m, r.record? d = some m) :
    ∃ name, r.typeName? (.named key) = some name := by
  obtain ⟨n, hn⟩ := Nat.exists_eq_add_one.mpr (length_pos_of_find? h)
  have hends : r.keyEnds (r.entries.length + 1) key = true := by
    rw [keyEnds, h, hn]
    refine List.all_eq_true.mpr fun d hd => ?_
    obtain ⟨m, hm⟩ := hu d hd
    obtain ⟨k, rfl, hk⟩ := record?_eq_some_iff.mp hm
    simp [Descriptor.key?, keyEnds, hk]
  exact ⟨r.typeName (.named key), if_pos hends⟩

/-- Every descriptor has a finite name. -/
def AllNamed (r : Registry) : Prop := ∀ d, r.nameEnds d = true

/-- Names have no end only where a union has alternatives other than models. -/
theorem allNamed_of_records (h : ∀ key u, r.find? key = some (.union u) → ∀ d ∈ u.alternatives,
    ∃ m, r.record? d = some m) : r.AllNamed := by
  intro d
  cases hkey : d.key? with
  | none => simp [nameEnds, hkey]
  | some key =>
    have hnamed : r.nameEnds (.named key) = true := by
      by_cases hu : ∃ u, r.find? key = some (.union u)
      · obtain ⟨u, hu⟩ := hu
        obtain ⟨name, hname⟩ := typeName?_union hu (h key u hu)
        exact nameEnds_of_typeName? hname
      · exact nameEnds_of_not_union fun u hfind => hu ⟨u, hfind⟩
    simpa [nameEnds, Descriptor.key?, hkey] using hnamed

/-- An instance is looked for up to the last alternative only if all of them are fit for use. -/
theorem fault?_of_isInstanceOf {v : Value} {ds : List Descriptor} (h : r.isInstanceOf v ds = .ok false) :
    ∀ d ∈ ds, ∀ m, r.record? d = some m → m.fault? = none := by
  induction ds with
  | nil => simp
  | cons d rest ih =>
    refine List.forall_mem_cons.mpr ?_
    unfold isInstanceOf at h
    split at h
    · next m hm =>
      split at h
      · cases h
      · cases h
      · next hf =>
        have hrest : r.isInstanceOf v rest = .ok false := by
          split at h
          · split at h
            · cases h
            · exact h
          · exact h
        refine ⟨fun m' hm' => ?_, ih hrest⟩
        obtain rfl := Option.some.inj (hm.symm.trans hm')
        exact hf
    · next hnone =>
      refine ⟨fun m hm => ?_, ih h⟩
      obtain ⟨key, rfl, hfind⟩ := record?_eq_some_iff.mp hm
      exact absurd hm (hnone key m rfl)

/-- None of these descriptors runs into the fault by itself, and their parts are among them. A name of
which no class can be made is an issue and no fault where the model is part of something else. -/
structure Averts (r : Registry) (fault : Fault) (S : Descriptor → Prop) : Prop where
  part {d e : Descriptor} (hd : S d) (h : r.Part d e) : S e
  record {item : Descriptor} (hd : S (.map item)) (h : r.record? item = none) : .notRecord ≠ fault
  found {key : String} (hd : S (.named key)) (h : r.find? key = none) : .unregistered key ≠ fault
  fit {key : String} {m : Model} (hd : S (.named key)) (h : r.find? key = some (.model m))
    (hne : fault ≠ .nullInName) : m.fault? ≠ some fault
  ends {key : String} {u : Union} (hd : S (.named key)) (h : r.find? key = some (.union u))
    (he : .endless = fault) : ∀ d ∈ u.alternatives, ∃ m, r.record? d = some m

/-- As `Averts`, with unions of any alternatives as long as their names are finite. -/
structure Spares (r : Registry) (fault : Fault) (S : Descriptor → Prop) : Prop where
  part {d e : Descriptor} (hd : S d) (h : r.Part d e) : S e
  record {item : Descriptor} (hd : S (.map item)) (h : r.record? item = none) : .notRecord ≠ fault
  found {key : String} (hd : S (.named key)) (h : r.find? key = none) : .unregistered key ≠ fault
  fit {key : String} {m : Model} (hd : S (.named key)) (h : r.find? key = some (.model m))
    (hne : fault ≠ .nullInName) : m.fault? ≠ some fault
  ends {key : String} {u : Union} (hd : S (.named key)) (h : r.find? key = some (.union u))
    (he : .endless = fault) : ∃ name, r.typeName? (.named key) = some name

/-- The descriptor is no model with the fault. -/
def Fit (r : Registry) (fault : Fault) (d : Descriptor) : Prop :=
  ∀ m, r.record? d = some m → m.fault? ≠ some fault

theorem Fit.broken {d : Descriptor} (h : r.Fit fault d) {m : Model} (hm : r.record? d = some m)
    {other : Fault} (hf : m.fault? = some other) :
    Outcome.Avoids (α := Value) fault (Outcome.broken other) := by
  refine Outcome.avoids_broken ?_
  rintro rfl
  exact h m hm hf

namespace Spares

variable {S : Descriptor → Prop}

theorem fit_part (h : r.Spares fault S) {d : Descriptor} (hd : S d)
    (hne : fault = .nullInName → r.record? d = none) : r.Fit fault d := by
  intro m hm
  obtain ⟨key, rfl, hkey⟩ := record?_eq_some_iff.mp hm
  refine h.fit hd hkey fun heq => ?_
  rw [hne heq] at hm
  cases hm

theorem nests (h : r.Spares fault S) (he : .endless = fault) {d : Descriptor} (hd : S d) :
    r.Nests r.entries.length d := by
  induction d with
  | basic b => exact .basic _ b
  | array item => exact .array _ item
  | map item => exact .map _ item
  | maybeNull inner ih => exact .maybeNull (ih (h.part hd (.maybeNull inner)))
  | named key => exact nests_named fun u hu => h.ends hd hu he

theorem avoids_alternative (h : r.Spares fault S) {u : Union} (hd : S (.named key))
    (hu : r.find? key = some (.union u)) {a : Descriptor} (ha : a ∈ u.alternatives) {part : Outcome}
    (hpart : Outcome.Avoids fault part) : Outcome.Avoids fault (r.onItsOwn a part) := by
  refine avoids_onItsOwn (fun he => ?_) hpart
  obtain ⟨name, hname⟩ := h.ends hd hu he
  exact nameEnds_alternative (nameEnds_of_typeName? hname) hu ha

/-- What none of the parts runs into does not come up, whatever the value, if the bound lets all unions
be entered. -/
theorem avoids_validate (h : r.Spares fault S) {unions : Nat} {d : Descriptor} (hd : S d)
    (hf : r.Fit fault d) (hn : .endless = fault → r.Nests unions d) (v : Value) :
    Outcome.Avoids fault (r.validate unions d v) := by
  fun_induction validate r unions d v with
  | case1 _ v b | case12 _ v _ b => exact avoids_basic b v
  | case13 _ v _ e => exact avoids_enumeration e v
  | case2 | case16 | case20 => exact Outcome.avoids_ok _
  | case5 | case8 | case10 | case17 | case18 => exact Outcome.avoids_reject _
  | case6 _ _ _ hm => exact Outcome.avoids_broken (h.record hd hm)
  | case11 _ _ _ hk => exact Outcome.avoids_broken (h.found hd hk)
  | case3 _ inner v _ ih =>
    have hinner : S inner := h.part hd (.maybeNull inner)
    exact avoids_embed fun hne => ih hinner (h.fit_part hinner hne) fun he => (hn he).inner
  | case4 _ _ item items _ parts ih =>
    have hitem : S item := h.part hd (.array item)
    refine (Outcome.avoids_gather fun part hpart => ?_).map _
    obtain ⟨i, hi, rfl⟩ := List.mem_mapIdx.mp hpart
    exact avoids_embed fun hne => ih _ hitem (h.fit_part hitem hne) fun he => h.nests he hitem
  | case7 _ item m _ entries parts ih | case9 _ item m _ _ _ items _ _ parts ih =>
    have hitem : S item := h.part hd (.map item)
    refine (Outcome.avoids_index (fun part hpart => ?_) _).map _
    obtain ⟨e, -, rfl⟩ := List.mem_map.mp hpart
    exact avoids_embed fun hne => ih e hitem (h.fit_part hitem hne) fun he => h.nests he hitem
  | case14 _ _ key m hm other hother => exact hf.broken (record?_named hm) hother
  | case15 _ key m hm _ entries c parts ih =>
    refine (avoids_settle (Outcome.avoids_gather fun part hpart => ?_) entries).map _
    rcases List.mem_append.mp hpart with hpart | hpart
    · obtain ⟨f, hf, rfl⟩ := List.mem_map.mp hpart
      obtain ⟨p, hp, rfl⟩ := List.mem_map.mp hf
      have hproperty : S p.2 := h.part hd (.property hm hp)
      dsimp only
      split
      · next x hx =>
        refine avoids_embed fun hne => ?_
        exact ih _ x hx hproperty (h.fit_part hproperty hne) fun he => h.nests he hproperty
      · exact m.omitted_field p ▸ avoids_omitted p.2
    · exact avoids_stray hpart
  | case19 _ v key u hu e he =>
    have hinstance : Outcome.Avoids fault (r.isInstanceOf v u.alternatives) := by
      refine avoids_isInstanceOf (fun hne d ha m hm => ?_) v
      exact h.fit_part (h.part hd (.alternative hu ha)) (fun heq => absurd heq hne) m hm
    simpa [he, Outcome.Avoids] using hinstance
  | case21 _ key u hu =>
    refine Outcome.avoids_broken fun he => ?_
    obtain ⟨k, hk, -⟩ := (hn he).alternatives hu
    exact absurd hk (Nat.succ_ne_zero k).symm
  | case22 v key u hu hinstance unions last ih =>
    refine Outcome.avoids_first ?_ fun part hpart => ?_
    · dsimp only [last]
      split
      · exact Outcome.avoids_reject _
      · next hnone =>
        refine Outcome.avoids_broken fun he => ?_
        obtain ⟨name, hname⟩ := h.ends hd hu he
        simp [hnone] at hname
    · obtain ⟨a, ha, rfl⟩ := List.mem_map.mp hpart
      have halternative : S a := h.part hd (.alternative hu ha)
      refine h.avoids_alternative hd hu ha (ih a halternative (fun m hm => ?_) fun he => ?_)
      · simp [fault?_of_isInstanceOf hinstance a ha m hm]
      · obtain ⟨k, hk, hall⟩ := (hn he).alternatives hu
        obtain rfl := Nat.succ.inj hk
        exact hall a ha

end Spares

namespace Averts

variable {S : Descriptor → Prop}

/-- Models have finite names, and so do unions of models. -/
theorem spares (h : r.Averts fault S) : r.Spares fault S where
  part := h.part
  record := h.record
  found := h.found
  fit := h.fit
  ends hd hu he := typeName?_union hu (h.ends hd hu he)

theorem fit_part (h : r.Averts fault S) {d : Descriptor} (hd : S d)
    (hne : fault = .nullInName → r.record? d = none) : r.Fit fault d := h.spares.fit_part hd hne

/-- What none of the parts runs into does not come up, whatever the value. Within a bound on the unions
that are entered, only a model may use up the bound. -/
theorem avoids_validate (h : r.Averts fault S) {unions : Nat} {d : Descriptor} (hd : S d)
    (hf : r.Fit fault d)
    (hn : .endless = fault → r.entries.length ≤ unions ∨ ∃ m, r.record? d = some m) (v : Value) :
    Outcome.Avoids fault (r.validate unions d v) := by
  refine h.spares.avoids_validate hd hf (fun he => ?_) v
  rcases hn he with hle | ⟨m, hm⟩
  · exact (h.spares.nests he hd).mono hle
  · exact .of_record hm unions

end Averts

def AllSealed (r : Registry) : Prop := ∀ key m, r.find? key = some (.model m) → m.isSealed = true

theorem fault?_of_isSealed {m : Model} (h : m.isSealed = true) {fault : Fault}
    (hf : m.fault? = some fault) : fault = .nullInName := by
  unfold Model.fault? at hf
  simp only [h, Bool.not_true, Bool.false_eq_true, if_false] at hf
  split at hf <;> simp_all

/-- Sealed models never stop a conversion as unfinished, whatever the value. -/
theorem AllSealed.averts (h : r.AllSealed) (model : String) :
    r.Averts (.unsealed model) fun _ => True where
  part _ _ := trivial
  record _ _ := nofun
  found _ _ := nofun
  fit _ hm _ hf := Fault.noConfusion (fault?_of_isSealed (h _ _ hm) hf)
  ends _ _ := nofun

theorem AllSealed.avoids_convert (h : r.AllSealed) (model : String) (d : Descriptor) (v : Value) :
    Outcome.Avoids (.unsealed model) (r.convert d v) := by
  have haverts := h.averts model
  refine avoids_onItsOwn nofun ?_
  exact haverts.avoids_validate trivial (haverts.fit_part trivial nofun) nofun v

theorem isValid_ne_unsealed (h : r.AllSealed) (d : Descriptor) (v : Value) (model : String) :
    r.isValid d v ≠ .error (.unsealed model) := by
  have hconvert := h.avoids_convert model d v
  unfold isValid
  split <;> simp_all [Outcome.Avoids]

theorem create_ne_unsealed (h : r.AllSealed) (d : Descriptor) (v : Value) (model : String) :
    r.create d v ≠ .error (.fault (.unsealed model)) := by
  have hconvert := h.avoids_convert model d (r.input d v)
  unfold create
  split
  · simp
  · split <;> simp
  · simp_all [Outcome.Avoids]

end CheckedModels.Registry
