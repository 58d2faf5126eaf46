import CheckedModels.Proofs.Conversion.Record
import CheckedModels.Proofs.Registry.Legible

/-! Which alternative a union takes, for data and for the snapshot of what it makes of the data. -/
namespace CheckedModels

namespace Outcome

variable {w : Value}

theorem exists_rejected {x : Outcome} (havoids : ∀ fault, Avoids fault x) (h : ∀ w, x ≠ .ok w) :
    ∃ issues, x = .error (.rejected issues) := by
  rcases x with (issues | fault) | w
  · exact ⟨issues, rfl⟩
  · exact absurd rfl (havoids fault)
  · exact absurd rfl (h w)

theorem first_eq_ok_iff {otherwise : Outcome} {parts : List Outcome} (ho : otherwise ≠ .ok w) :
    first otherwise parts = .ok w ↔ ∃ before after, parts = before ++ .ok w :: after ∧
      ∀ part ∈ before, ∃ issues, part = .error (.rejected issues) := by
  induction parts with
  | nil => simpa [first] using ho
  | cons part rest ih =>
    constructor
    · intro h
      rcases part with (issues | fault) | v
      · obtain ⟨before, after, rfl, hbefore⟩ := ih.mp h
        exact ⟨.error (.rejected issues) :: before, after, rfl, List.forall_mem_cons.mpr ⟨⟨issues, rfl⟩, hbefore⟩⟩
      · cases h
      · obtain rfl := Except.ok.inj h
        exact ⟨[], rest, rfl, List.forall_mem_nil _⟩
    · rintro ⟨before, after, hparts, hbefore⟩
      cases before with
      | nil =>
        obtain ⟨rfl, rfl⟩ := List.cons.inj hparts
        rfl
      | cons head before =>
        obtain ⟨rfl, rfl⟩ := List.cons.inj hparts
        obtain ⟨⟨issues, rfl⟩, hrest⟩ := List.forall_mem_cons.mp hbefore
        exact ih.mpr ⟨before, after, rfl, hrest⟩

end Outcome

theorem Value.eq_null_of_snapshot {v : Value} (h : v.snapshot = .null) : v = .null := by
  cases v with
  | scalar s => exact h
  | list | tuple | dict | «instance» => cases h

namespace Value.IsPlain

theorem item {items : List Value} (h : IsPlain (.list items)) {x : Value} (hx : x ∈ items) : x.IsPlain := by
  cases h with
  | list hall => exact hall x hx

theorem entry {entries : List (Scalar × Value)} (h : IsPlain (.dict entries)) {e : Scalar × Value}
    (he : e ∈ entries) : e.2.IsPlain := by
  cases h with
  | dict hall => exact hall e he

theorem given {v : Value} (h : v.IsPlain) {given : List (Option Scalar × Value)} (hv : v.given? = some given)
    {g : Option Scalar × Value} (hg : g ∈ given) : g.2.IsPlain := by
  cases h with
  | scalar => cases hv
  | list hall =>
    obtain rfl := Option.some.inj hv
    obtain ⟨x, hx, rfl⟩ := List.mem_map.mp hg
    exact hall x hx
  | dict hall =>
    obtain rfl := Option.some.inj hv
    obtain ⟨e, he, rfl⟩ := List.mem_map.mp hg
    exact hall e he

end Value.IsPlain

namespace Registry

/-- Descriptors whose parts are among them, as schemas have them: what they name is registered, models are
finished and have each property once, unions are of models, and there are no collections. -/
structure Orderly (r : Registry) (S : Descriptor → Prop) : Prop where
  part {d e : Descriptor} (hd : S d) (h : r.Part d e) : S e
  found {key : String} (hd : S (.named key)) : ∃ definition, r.find? key = some definition
  model {key : String} {m : Model} (hd : S (.named key)) (h : r.find? key = some (.model m)) :
    m.isSealed = true ∧ m.properties.keys.Nodup
  union {key : String} {u : Union} (hd : S (.named key)) (h : r.find? key = some (.union u)) :
    ∀ d ∈ u.alternatives, ∃ m, r.record? d = some m
  noMap {item : Descriptor} : ¬ S (.map item)

/-- No property is opaque in one of the records and may be null in another. -/
def Steady (r : Registry) (S : Descriptor → Prop) : Prop :=
  ∀ ⦃key other : String⦄ ⦃m n : Model⦄, S (.named key) → S (.named other) →
    r.find? key = some (.model m) → r.find? other = some (.model n) →
    ∀ p ∈ m.properties, ∀ q ∈ n.properties, p.1 = q.1 →
      r.definition? p.2 = some (.basic .frozen) → q.2.isMaybeNull = false

variable {r : Registry} {S : Descriptor → Prop} {d e : Descriptor} {key : String} {m : Model} {u : Union}
  {v w x y : Value}

theorem isPlain_snapshot_record {serial : Option Nat} {name : String} {properties : Entries Value}
    (h : ∀ p ∈ properties, p.2.snapshot.IsPlain) : (Value.record serial key name properties).snapshot.IsPlain := by
  refine .dict fun e he => ?_
  obtain ⟨f, hf, heq⟩ := Value.exists_held_of_read he
  obtain ⟨p, hp, rfl⟩ := List.mem_map.mp hf
  exact heq ▸ h p hp

theorem fault?_of_check (hm : r.find? key = some (.model m)) (h : r.check (.named key) v = .ok w) :
    m.fault? = none := by
  cases hf : m.fault? with
  | some fault =>
    rw [check, validate_fault hm hf] at h
    cases h
  | none => rfl

/-- A model accepts plain data only as a dictionary. -/
theorem exists_dict_of_model (hm : r.find? key = some (.model m)) (hv : v.IsPlain)
    (h : r.check (.named key) v = .ok w) : ∃ entries, v = .dict entries := by
  have hf := fault?_of_check hm h
  cases hv with
  | dict => exact ⟨_, rfl⟩
  | scalar | list =>
    rw [check, validate_not_model hm hf (by simp) (by simp)] at h
    cases h

/-- What a model makes of a dictionary is written as plain data if what comes of its entries is. -/
theorem isPlain_snapshot_build {entries : List (Scalar × Value)} {parts : List Value}
    (hbuilt : List.Forall₂ (fun p y => r.part entries p = .ok y) m.properties parts)
    (hparts : ∀ p ∈ m.properties, ∀ x, Value.under? entries p.1 = some x → ∀ y, r.check p.2 x = .ok y →
      y.snapshot.IsPlain) : (m.build key parts).snapshot.IsPlain := by
  refine isPlain_snapshot_record fun q hq => ?_
  obtain ⟨p, hp, -, hpart⟩ := Entries.exists_rel_of_mem (Entries.forall₂_zip_keys hbuilt) hq
  obtain ⟨habsent, hpresent⟩ := part_eq_ok_iff.mp hpart
  cases hx : Value.under? entries p.1 with
  | some x => exact hparts p hp x hx q.2 (hpresent x hx)
  | none =>
    rw [(habsent hx).2]
    exact .scalar .null

/-- What is made of plain data has a snapshot that is plain data again. -/
theorem isPlain_snapshot_of_validate {unions : Nat} (h : r.validate unions d v = .ok w) (hv : v.IsPlain) :
    w.snapshot.IsPlain := by
  induction unions, d, v using conversion_induction r.entries.length generalizing w with
  | step unions d v hlayer halternatives hparts =>
    have hsame : w = v → w.snapshot.IsPlain := by
      rintro rfl
      rwa [hv.instanceFree.snapshot_eq]
    cases d with
    | basic b => exact hsame (Basic.validate_eq_ok_iff.mp (validate_basic b v ▸ h)).1
    | maybeNull inner =>
      rcases validate_maybeNull_eq_ok_iff.mp h with ⟨rfl, rfl⟩ | ⟨-, hinner⟩
      · exact .scalar .null
      · exact hlayer inner rfl hinner hv
    | array item =>
      obtain ⟨items, ws, hitems, hall, rfl⟩ := validate_array_eq_ok_iff.mp h
      obtain ⟨-, hplain⟩ := hv.eq_list hitems
      rw [Value.snapshot_list]
      refine .list fun y hy => ?_
      obtain ⟨w, hw, rfl⟩ := List.mem_map.mp hy
      obtain ⟨x, hx, hcheck⟩ := Entries.exists_rel_of_mem hall hw
      exact hparts item x (Value.sizeOf_item hitems hx) hcheck (hplain x hx)
    | map item =>
      obtain ⟨key, m, given, made, rfl, -, hgiven, -, hall, rfl⟩ := exists_given_of_validate h
      rw [Collection.toDict, Value.snapshot_dict, List.map_map]
      refine .dict fun e he => ?_
      obtain ⟨f, hf, rfl⟩ := List.mem_map.mp he
      obtain ⟨g, hg, hcheck, -⟩ := Entries.exists_rel_of_mem hall hf
      exact hparts (.named key) g.2 (Value.sizeOf_given hgiven hg) hcheck (hv.given hgiven hg)
    | named key =>
      cases byKey_of_validate h with
      | basic | enumeration | same | member => exact hsame rfl
      | @record m entries parts _ _ hbuilt =>
        refine isPlain_snapshot_build hbuilt fun p _ x hx y hcheck => ?_
        have hsize : sizeOf x < sizeOf (Value.dict entries) := Nat.lt_trans (Value.sizeOf_under hx) (by simp)
        exact hparts p.2 x hsize hcheck (hv.entry (Value.mem_of_under? hx))
      | alternative _ _ _ hn hok => exact halternatives _ _ hn hok hv

namespace Orderly

theorem averts (h : r.Orderly S) (fault : Fault) : r.Averts fault S where
  part := h.part
  record hd := absurd hd h.noMap
  found hd hnone := by
    obtain ⟨definition, hfind⟩ := h.found hd
    simp [hnone] at hfind
  fit hd hm hne hf := hne (fault?_of_isSealed (h.model hd hm).1 hf)
  ends hd hu _ := h.union hd hu

theorem reachable (h : r.Orderly S) (hd : S d) : r.Orderly (Relation.ReflTransGen r.Part d) := by
  have hmem : ∀ e, Relation.ReflTransGen r.Part d e → S e := by
    intro e he
    induction he with
    | refl => exact hd
    | tail _ hp ih => exact h.part ih hp
  exact {
    part := fun he hp => he.tail hp
    found := fun he => h.found (hmem _ he)
    model := fun he => h.model (hmem _ he)
    union := fun he => h.union (hmem _ he)
    noMap := fun he => h.noMap (hmem _ he) }

/-- Plain data is taken by the first alternative that accepts it, if all alternatives are fit for use. -/
theorem check_union_eq_ok_iff (h : r.Orderly S) (hd : S (.named key)) (hu : r.find? key = some (.union u))
    (hv : v.IsPlain) : r.check (.named key) v = .ok w ↔
      (∀ a ∈ u.alternatives, ∀ m, r.record? a = some m → m.fault? = none) ∧
      ∃ before a after, u.alternatives = before ++ a :: after ∧ r.check a v = .ok w ∧
        ∀ b ∈ before, ¬ r.Accepts b v := by
  obtain ⟨name, hname⟩ := typeName?_union hu (h.union hd hu)
  have hlast : Outcome.reject (.noAlternative name) ≠ .ok w := by simp [Outcome.reject]
  constructor
  · intro hcheck
    have hinstance : r.isInstanceOf v u.alternatives = .ok false := by
      rcases validate_union_eq_ok hu hcheck with ⟨hfound, -⟩ | ⟨hinstance, -⟩
      · obtain ⟨_, serial, name, attributes, held, -, rfl⟩ := exists_alternative_of_isInstanceOf hfound
        cases hv
      · exact hinstance
    rw [check_union hu hname hinstance, Outcome.first_eq_ok_iff hlast] at hcheck
    obtain ⟨before, after, hsplit, hbefore⟩ := hcheck
    obtain ⟨firsts, rest, hall, rfl, hrest⟩ := List.map_eq_append_iff.mp hsplit
    obtain ⟨a, lasts, rfl, ha, -⟩ := List.map_eq_cons_iff.mp hrest
    refine ⟨fault?_of_isInstanceOf hinstance, firsts, a, lasts, hall, ha, ?_⟩
    rintro b hb ⟨y, hy⟩
    obtain ⟨issues, hissues⟩ := hbefore _ (List.mem_map_of_mem hb)
    rw [hy] at hissues
    cases hissues
  · rintro ⟨hfit, before, a, after, hall, ha, hbefore⟩
    rw [check_union hu hname (isInstanceOf_of_ne hv.ne_instance hfit), Outcome.first_eq_ok_iff hlast]
    refine ⟨before.map fun b => r.check b v, after.map fun b => r.check b v, by simp [hall, ha], ?_⟩
    intro part hpart
    obtain ⟨b, hb, rfl⟩ := List.mem_map.mp hpart
    have hmem : b ∈ u.alternatives := by simp [hall, hb]
    have hmodel := h.union hd hu b hmem
    apply Outcome.exists_rejected
    · intro fault
      have hb : S b := h.part hd (.alternative hu hmem)
      exact (h.averts fault).avoids_validate hb (fun m hm => by simp [hfit b hmem m hm]) (fun _ => .inr hmodel) v
    · exact fun y hy => hbefore b hb ⟨y, hy⟩

theorem accepts_union_iff (h : r.Orderly S) (hd : S (.named key)) (hu : r.find? key = some (.union u))
    (hv : v.IsPlain) : r.Accepts (.named key) v ↔
      (∀ a ∈ u.alternatives, ∀ m, r.record? a = some m → m.fault? = none) ∧
      ∃ a ∈ u.alternatives, r.Accepts a v := by
  constructor
  · rintro ⟨w, hw⟩
    obtain ⟨hfit, before, a, after, hall, ha, -⟩ := (h.check_union_eq_ok_iff hd hu hv).mp hw
    exact ⟨hfit, a, by simp [hall], w, ha⟩
  · rintro ⟨hfit, a, hmem, ha⟩
    classical
    obtain ⟨b, hb⟩ : ∃ b, u.alternatives.find? (fun b => r.Accepts b v) = some b :=
      Option.isSome_iff_exists.mp (List.find?_isSome.mpr ⟨a, hmem, by simp [ha]⟩)
    obtain ⟨hyes, before, after, hall, hno⟩ := List.find?_eq_some_iff_append.mp hb
    obtain ⟨y, hy⟩ : r.Accepts b v := by simpa using hyes
    refine ⟨y, (h.check_union_eq_ok_iff hd hu hv).mpr ⟨hfit, before, b, after, hall, hy, fun c hc => ?_⟩⟩
    simpa using hno c hc

end Orderly

/-- What is opaque accepts all plain data. Otherwise a descriptor accepts scalars as they are, lists by
their items, and dictionaries by a record, and then any list of such items or dictionary of this record. -/
inductive Route (r : Registry) (S : Descriptor → Prop) (d : Descriptor) : Value → Value → Prop where
  | all (h : ∀ x : Value, x.IsPlain → r.Accepts d x) (v : Value) : Route r S d v v
  | scalar (s : Scalar) : Route r S d (.scalar s) (.scalar s)
  | list {item : Descriptor} {items made : List Value} (hitem : S item)
    (hmade : List.Forall₂ (fun x y => r.check item x = .ok y) items made)
    (h : ∀ others, Value.IsPlain (.list others) → (∀ x ∈ others, r.Accepts item x) →
      r.Accepts d (.list others)) : Route r S d (.list items) (.list made)
  | record {key : String} {m : Model} {entries : List (Scalar × Value)} {w : Value} (hkey : S (.named key))
    (hm : r.find? key = some (.model m)) (hmade : r.check (.named key) (.dict entries) = .ok w)
    (h : ∀ others, Value.IsPlain (.dict others) → r.Accepts (.named key) (.dict others) →
      r.Accepts d (.dict others)) : Route r S d (.dict entries) w

namespace Route

theorem imp (h : r.Route S d v w)
    (hmore : ∀ x : Value, x.IsPlain → r.Accepts d x → r.Accepts e x) :
    r.Route S e v w := by
  cases h with
  | all hall => exact .all (fun x hx => hmore x hx (hall x hx)) v
  | scalar s => exact .scalar s
  | list hitem hmade hall => exact .list hitem hmade fun others hp ho => hmore _ hp (hall others hp ho)
  | record hkey hm hmade hall =>
    exact .record hkey hm hmade fun others hp ho => hmore _ hp (hall others hp ho)

theorem of_basic {b : Basic} (hb : ∀ x, r.check d x = b.validate x) (h : r.check d v = .ok w) :
    r.Route S d v w := by
  rw [hb] at h
  obtain ⟨rfl, htakes⟩ := Basic.validate_eq_ok_iff.mp h
  by_cases hfrozen : b = .frozen
  · refine .all (fun x _ => ⟨x, ?_⟩) _
    rw [hb, hfrozen]
    rfl
  · obtain ⟨s, rfl⟩ := htakes.exists_scalar hfrozen
    exact .scalar s

theorem of_model (hd : S (.named key)) (hm : r.find? key = some (.model m)) (hv : v.IsPlain)
    (h : r.check (.named key) v = .ok w) : r.Route S (.named key) v w := by
  obtain ⟨entries, rfl⟩ := exists_dict_of_model hm hv h
  exact .record hd hm h fun _ _ => id

end Route

namespace Orderly

theorem route (h : r.Orderly S) (hd : S d) (hv : v.IsPlain) (hcheck : r.check d v = .ok w) :
    r.Route S d v w := by
  induction d generalizing v w with
  | basic b => exact .of_basic (fun x => validate_basic b x) hcheck
  | map item => exact absurd hd h.noMap
  | maybeNull inner ih =>
    have hmore : ∀ x, r.Accepts inner x → r.Accepts (.maybeNull inner) x := by
      rintro x ⟨y, hy⟩
      by_cases hnull : x = .null
      · exact ⟨.null, hnull ▸ validate_maybeNull_null inner⟩
      · refine ⟨y, ?_⟩
        rw [check, validate_maybeNull hnull]
        exact embed_eq_ok_iff.mpr hy
    by_cases hnull : v = .null
    · subst hnull
      rw [check, validate_maybeNull_null] at hcheck
      obtain rfl := Except.ok.inj hcheck
      exact .scalar .null
    · rw [check, validate_maybeNull hnull] at hcheck
      have hinner := ih (h.part hd (.maybeNull inner)) hv (embed_eq_ok_iff.mp hcheck)
      exact hinner.imp fun x _ => hmore x
  | array item =>
    obtain ⟨items, made, hitems, hmade, rfl⟩ := validate_array_eq_ok_iff.mp hcheck
    obtain ⟨rfl, -⟩ := hv.eq_list hitems
    refine .list (h.part hd (.array item)) hmade fun others _ ho => ?_
    obtain ⟨more, hmore⟩ := Entries.exists_forall₂ ho
    exact ⟨.list more, validate_list_eq_ok_iff.mpr ⟨more, hmore, rfl⟩⟩
  | named key =>
    obtain ⟨definition, hfind⟩ := h.found hd
    cases definition with
    | basic b => exact .of_basic (fun x => validate_named_basic hfind x) hcheck
    | enumeration e =>
      rw [check, validate_named_enumeration hfind] at hcheck
      obtain ⟨rfl, s, -, rfl⟩ := Enumeration.validate_eq_ok_iff.mp hcheck
      exact .scalar _
    | model m => exact .of_model hd hfind hv hcheck
    | union u =>
      obtain ⟨hfit, before, a, after, hall, ha, -⟩ := (h.check_union_eq_ok_iff hd hfind hv).mp hcheck
      have hmem : a ∈ u.alternatives := by simp [hall]
      obtain ⟨m, hm⟩ := h.union hd hfind a hmem
      obtain ⟨k, rfl, hk⟩ := record?_eq_some_iff.mp hm
      have hmodel : r.Route S (.named k) v w := .of_model (h.part hd (.alternative hfind hmem)) hk hv ha
      exact hmodel.imp fun x hx hy => (h.accepts_union_iff hd hfind hx).mpr ⟨hfit, _, hmem, hy⟩

theorem nullable_or_frozen (h : r.Orderly S) (hd : S d) (hcheck : r.check d .null = .ok w) :
    d.isMaybeNull = true ∨ r.definition? d = some (.basic .frozen) := by
  have hfrozen : ∀ b : Basic, b.Takes .null → b = .frozen := by
    intro b hb
    cases b <;> simp_all [Basic.Takes]
  have hmodel : ∀ name m, r.find? name = some (.model m) → r.check (.named name) .null ≠ .ok w := by
    intro name m hm hnull
    obtain ⟨entries, heq⟩ := exists_dict_of_model hm (.scalar .null) hnull
    cases heq
  cases d with
  | basic b =>
    rw [check, validate_basic] at hcheck
    obtain rfl := hfrozen b (Basic.validate_eq_ok_iff.mp hcheck).2
    exact .inr rfl
  | maybeNull inner => exact .inl rfl
  | array item =>
    rw [check, validate_array_of_none rfl] at hcheck
    cases hcheck
  | map item => exact absurd hd h.noMap
  | named key =>
    obtain ⟨definition, hfind⟩ := h.found hd
    cases definition with
    | basic b =>
      rw [check, validate_named_basic hfind] at hcheck
      obtain rfl := hfrozen b (Basic.validate_eq_ok_iff.mp hcheck).2
      exact .inr hfind
    | enumeration e =>
      rw [check, validate_named_enumeration hfind] at hcheck
      obtain ⟨-, s, -, hs⟩ := Enumeration.validate_eq_ok_iff.mp hcheck
      cases hs
    | model m => exact absurd hcheck (hmodel key m hfind)
    | union u =>
      obtain ⟨-, before, a, after, hall, ha, -⟩ := (h.check_union_eq_ok_iff hd hfind (.scalar _)).mp hcheck
      obtain ⟨m, hm⟩ := h.union hd hfind a (by simp [hall])
      obtain ⟨k, rfl, hk⟩ := record?_eq_some_iff.mp hm
      exact absurd ha (hmodel k m hk)

end Orderly

/-- The entries that a snapshot has for the properties of a new instance. -/
def written (m : Model) (parts : List Value) : List (Scalar × Value) :=
  (m.properties.keys.zip parts).map fun p => (.str (.whole p.1), p.2.snapshot)

theorem snapshot_build (distinct : m.properties.keys.Nodup) {parts : List Value}
    (same : Entries.keys (m.properties.keys.zip parts) = m.properties.keys) (key : String) :
    (m.build key parts).snapshot = .dict (written m parts) := Value.snapshot_record (by rwa [same])

namespace Orderly

/-- What a property takes from the snapshot of an instance it takes from what the instance is made from.
Only for null may it not have been there, which is where the steady records come in. -/
theorem exists_part_of_written (h : r.Orderly S) (hsteady : r.Steady S) {other : String} {n : Model}
    (hkey : S (.named key)) (hother : S (.named other)) (hm : r.find? key = some (.model m))
    (hn : r.find? other = some (.model n)) {entries : List (Scalar × Value)} {parts : List Value}
    (hkeys : ∀ e ∈ entries, ∃ name ∈ n.properties.keys, e.1 = .str (.whole name))
    (hbuilt : List.Forall₂ (fun p y => r.part entries p = .ok y) n.properties parts)
    {p : String × Descriptor} (hp : p ∈ m.properties) (hagain : ∃ z, r.part (written n parts) p = .ok z)
    (hvalues : ∀ d e x y, S d → S e → (∃ name, Value.under? entries name = some x) → r.check e x = .ok y →
      r.Accepts d y.snapshot → r.Accepts d x) :
    ∃ z, r.part entries p = .ok z := by
  have hpS : S p.2 := h.part hkey (.property hm hp)
  obtain ⟨-, hnames⟩ := related_build hbuilt
  obtain ⟨habsent, hpresent⟩ := exists_part_iff.mp hagain
  rw [written, Value.under?_map] at habsent hpresent
  by_cases hmem : p.1 ∈ n.properties.keys
  · obtain ⟨q, hq, hname⟩ := List.mem_map.mp hmem
    have hqS : S q.2 := h.part hother (.property hn hq)
    obtain ⟨y, hmade, hlookup⟩ := exists_value_build (h.model hother hn).2 hbuilt hq
    rw [hname] at hlookup
    have htakes : r.Accepts p.2 y.snapshot := hpresent _ (by rw [hlookup]; rfl)
    obtain ⟨hnull, hmakes⟩ := part_eq_ok_iff.mp hmade
    rw [hname] at hnull hmakes
    refine exists_part_iff.mpr ⟨fun hnone => ?_, fun x hx => ?_⟩
    · obtain ⟨⟨inner, hinner⟩, rfl⟩ := hnull hnone
      obtain ⟨z, hz⟩ := htakes
      rcases h.nullable_or_frozen hpS hz with hmaybe | hfrozen
      · cases hd : p.2 <;> simp_all [Descriptor.isMaybeNull]
      · have hnever := hsteady hkey hother hm hn p hp q hq hname.symm hfrozen
        simp [hinner, Descriptor.isMaybeNull] at hnever
    · exact hvalues p.2 q.2 x y hpS hqS ⟨p.1, hx⟩ (hmakes x hx) htakes
  · have hlookup : (n.properties.keys.zip parts).lookup p.1 = none :=
      Entries.lookup_eq_none_iff.mpr (by rwa [hnames])
    refine exists_part_iff.mpr ⟨fun _ => habsent (by rw [hlookup]; rfl), fun x hx => ?_⟩
    obtain ⟨name, hname, heq⟩ := hkeys _ (Value.mem_of_under? hx)
    obtain rfl : p.1 = name := by simpa using heq
    exact absurd hname hmem

/-- What a model accepts of the snapshot of an instance it accepts of what the instance is made from. -/
theorem accepts_record (h : r.Orderly S) (hsteady : r.Steady S) {other : String} {n : Model}
    (hkey : S (.named key)) (hother : S (.named other)) (hm : r.find? key = some (.model m))
    (hn : r.find? other = some (.model n)) {entries : List (Scalar × Value)}
    (hmade : r.check (.named other) (.dict entries) = .ok w)
    (haccepts : r.Accepts (.named key) w.snapshot)
    (hvalues : ∀ d e x y, S d → S e → (∃ name, Value.under? entries name = some x) → r.check e x = .ok y →
      r.Accepts d y.snapshot → r.Accepts d x) :
    r.Accepts (.named key) (.dict entries) := by
  obtain ⟨hkeys, parts, hbuilt, rfl⟩ := (validate_dict_eq_ok_iff hn (fault?_of_check hn hmade)).mp hmade
  obtain ⟨y, hy⟩ := haccepts
  rw [snapshot_build (h.model hother hn).2 (related_build hbuilt).2] at hy
  have hf := fault?_of_check hm hy
  obtain ⟨hwritten, made, hagain, -⟩ := (validate_dict_eq_ok_iff hm hf).mp hy
  have hsubset : ∀ name ∈ n.properties.keys, name ∈ m.properties.keys := by
    intro name hname
    rw [← (related_build hbuilt).2] at hname
    obtain ⟨e, he, rfl⟩ := List.mem_map.mp hname
    obtain ⟨name, hmem, heq⟩ := hwritten _ (List.mem_map_of_mem he)
    obtain rfl : e.1 = name := by simpa using heq
    exact hmem
  have hpart : ∀ p ∈ m.properties, ∃ z, r.part entries p = .ok z := by
    intro p hp
    obtain ⟨z, -, hz⟩ := Entries.exists_rel_of_mem hagain.flip hp
    exact h.exists_part_of_written hsteady hkey hother hm hn hkeys hbuilt hp ⟨z, hz⟩ hvalues
  obtain ⟨made, hall⟩ := Entries.exists_forall₂ hpart
  refine ⟨_, (validate_dict_eq_ok_iff hm hf).mpr ⟨fun e he => ?_, made, hall, rfl⟩⟩
  obtain ⟨name, hmem, heq⟩ := hkeys e he
  exact ⟨name, hsubset name hmem, heq⟩

/-- What a descriptor accepts of a snapshot it accepts of what the value of the snapshot is made from. -/
theorem accepts_of_snapshot (h : r.Orderly S) (hsteady : r.Steady S) (hd : S d) (he : S e) (hv : v.IsPlain)
    (hcheck : r.check e v = .ok w) (haccepts : r.Accepts d w.snapshot) :
    r.Accepts d v := by
  induction hsize : sizeOf v using Nat.strongRecOn generalizing d e v w with
  | ind size ih =>
    subst hsize
    cases h.route he hv hcheck with
    | all | scalar => exact hv.instanceFree.snapshot_eq ▸ haccepts
    | @list item items made hitem hmade hmore =>
      obtain ⟨y, hy⟩ := haccepts
      have hplain := isPlain_snapshot_of_validate hcheck hv
      rw [Value.snapshot_list] at hy hplain
      cases h.route hd hplain hy with
      | all hall => exact hall _ hv
      | @list other _ _ hother hagain hall =>
        refine hall items hv fun x hx => ?_
        obtain ⟨y, hy, hxy⟩ := Entries.exists_rel_of_mem hmade.flip hx
        obtain ⟨z, -, hz⟩ := Entries.exists_rel_of_mem hagain.flip (List.mem_map_of_mem hy)
        exact ih _ (Value.sizeOf_item rfl hx) hother hitem (hv.item hx) hxy ⟨z, hz⟩ rfl
    | @record key n entries _ hkey hn hmade hmore =>
      obtain ⟨y, hy⟩ := haccepts
      have hplain := isPlain_snapshot_of_validate hmade hv
      obtain ⟨-, parts, hbuilt, rfl⟩ := (validate_dict_eq_ok_iff hn (fault?_of_check hn hmade)).mp hmade
      have hsnapshot := snapshot_build (h.model hkey hn).2 (related_build hbuilt).2 key
      have hagain := hy
      rw [hsnapshot] at hagain hplain
      cases h.route hd hplain hagain with
      | all hall => exact hall _ hv
      | @record other m _ _ hother hm haccepts hall =>
        refine hall entries hv ?_
        rw [← hsnapshot] at haccepts
        refine h.accepts_record hsteady hother hkey hm hn hmade ⟨_, haccepts⟩ ?_
        rintro d e x y hd he ⟨name, hx⟩ hxy hagain
        have hsmaller : sizeOf x < sizeOf (Value.dict entries) := by
          have hsize := Value.sizeOf_under hx
          simp only [Value.dict.sizeOf_spec]
          omega
        exact ih _ hsmaller hd he (hv.entry (Value.mem_of_under? hx)) hxy hagain rfl

/-- A property loads its part of the snapshot of an instance if its descriptor does. -/
theorem reload_part (h : r.Orderly S) (hkey : S (.named key)) (hm : r.find? key = some (.model m))
    {entries : List (Scalar × Value)} {parts : List Value}
    (hbuilt : List.Forall₂ (fun p y => r.part entries p = .ok y) m.properties parts)
    (hparts : ∀ d x y, S d → (∃ name, Value.under? entries name = some x) → r.check d x = .ok y →
      ∃ z, r.check d y.snapshot = .ok z ∧ (r.Steady S → z = y))
    {e : (String × Descriptor) × Value} (he : e ∈ m.properties.zip parts) :
    ∃ z, r.part (written m parts) e.1 = .ok z ∧ (r.Steady S → z = e.2) := by
  obtain ⟨p, y⟩ := e
  obtain ⟨-, hnames⟩ := related_build hbuilt
  have hdistinct : (Entries.keys (m.properties.keys.zip parts)).Nodup := hnames.symm ▸ (h.model hkey hm).2
  have hp : p ∈ m.properties := (List.of_mem_zip he).1
  have hmem : (p.1, y) ∈ m.properties.keys.zip parts := by
    rw [Entries.keys, List.zip_map_left]
    exact List.mem_map_of_mem he
  have hunder : Value.under? (written m parts) p.1 = some y.snapshot := by
    rw [written, Value.under?_map, Entries.lookup_of_mem hdistinct hmem]
    rfl
  obtain ⟨habsent, hpresent⟩ := part_eq_ok_iff.mp (List.forall₂_zip hbuilt he)
  have hloads : ∃ z, r.check p.2 y.snapshot = .ok z ∧ (r.Steady S → z = y) := by
    cases hx : Value.under? entries p.1 with
    | some x => exact hparts p.2 x y (h.part hkey (.property hm hp)) ⟨p.1, hx⟩ (hpresent x hx)
    | none =>
      obtain ⟨⟨inner, hinner⟩, hnull⟩ := habsent hx
      rw [hinner, hnull]
      exact ⟨.null, validate_maybeNull_null inner, fun _ => rfl⟩
  obtain ⟨z, hz, hsame⟩ := hloads
  refine ⟨z, ?_, hsame⟩
  rw [Registry.part, hunder]
  exact embed_eq_ok_iff.mpr hz

/-- A model loads the snapshot of an instance if its properties load theirs. -/
theorem reload_record (h : r.Orderly S) (hkey : S (.named key)) (hm : r.find? key = some (.model m))
    {entries : List (Scalar × Value)} (hcheck : r.check (.named key) (.dict entries) = .ok w)
    (hparts : ∀ d x y, S d → (∃ name, Value.under? entries name = some x) → r.check d x = .ok y →
      ∃ z, r.check d y.snapshot = .ok z ∧ (r.Steady S → z = y)) :
    ∃ z, r.check (.named key) w.snapshot = .ok z ∧ (r.Steady S → z = w) := by
  have hf := fault?_of_check hm hcheck
  obtain ⟨-, parts, hbuilt, rfl⟩ := (validate_dict_eq_ok_iff hm hf).mp hcheck
  obtain ⟨-, hnames⟩ := related_build hbuilt
  obtain ⟨again, hagain, hsame⟩ := Entries.exists_forall₂_zip
    (P := fun p z => r.part (written m parts) p = .ok z) (Q := fun y z => r.Steady S → z = y)
    hbuilt.length_eq fun e he => h.reload_part hkey hm hbuilt hparts he
  refine ⟨m.build key again, ?_, fun hsteady => ?_⟩
  · rw [snapshot_build (h.model hkey hm).2 hnames]
    refine (validate_dict_eq_ok_iff hm hf).mpr ⟨fun e he => ?_, again, hagain, rfl⟩
    obtain ⟨q, hq, rfl⟩ := List.mem_map.mp he
    exact ⟨q.1, hnames ▸ Entries.mem_keys_of_mem hq, rfl⟩
  · have heq : List.Forall₂ (· = ·) parts again := hsame.imp fun _ _ hz => (hz hsteady).symm
    rw [List.forall₂_eq_eq_eq] at heq
    rw [heq]

theorem reload_same (hv : v.IsPlain) (hcheck : r.check d v = .ok w) (hsame : w = v) :
    ∃ z, r.check d w.snapshot = .ok z ∧ (r.Steady S → z = w) := by
  subst hsame
  rw [hv.instanceFree.snapshot_eq]
  exact ⟨w, hcheck, fun _ => rfl⟩

theorem reload_list {item : Descriptor} {items : List Value}
    (hcheck : r.check (.array item) (.list items) = .ok w)
    (hitems : ∀ x ∈ items, ∀ y, r.check item x = .ok y →
      ∃ z, r.check item y.snapshot = .ok z ∧ (r.Steady S → z = y)) :
    ∃ z, r.check (.array item) w.snapshot = .ok z ∧ (r.Steady S → z = w) := by
  obtain ⟨made, hmade, rfl⟩ := validate_list_eq_ok_iff.mp hcheck
  have hload : ∀ y ∈ made, ∃ z, r.check item y.snapshot = .ok z ∧ (r.Steady S → z = y) := by
    intro y hy
    obtain ⟨x, hx, hxy⟩ := Entries.exists_rel_of_mem hmade hy
    exact hitems x hx y hxy
  obtain ⟨again, hagain⟩ := Entries.exists_forall₂ hload
  refine ⟨.list again, ?_, fun hsteady => ?_⟩
  · rw [Value.snapshot_list]
    refine validate_list_eq_ok_iff.mpr ⟨again, List.forall₂_map_left_iff.mpr ?_, rfl⟩
    exact hagain.imp fun _ _ h => h.1
  · have heq : List.Forall₂ (· = ·) made again := hagain.imp fun _ _ h => (h.2 hsteady).symm
    rw [List.forall₂_eq_eq_eq] at heq
    rw [heq]

/-- A union takes the alternative that it took before, as an earlier one that accepts the snapshot would
have accepted the data. -/
theorem reload_union (h : r.Orderly S) (hd : S (.named key)) (hu : r.find? key = some (.union u))
    (hv : v.IsPlain) (hcheck : r.check (.named key) v = .ok w)
    (hmodels : ∀ name m, S (.named name) → r.find? name = some (.model m) → r.check (.named name) v = .ok w →
      ∃ z, r.check (.named name) w.snapshot = .ok z ∧ (r.Steady S → z = w)) :
    ∃ z, r.check (.named key) w.snapshot = .ok z ∧ (r.Steady S → z = w) := by
  have hplain := isPlain_snapshot_of_validate hcheck hv
  obtain ⟨hfit, before, a, after, hall, ha, hbefore⟩ := (h.check_union_eq_ok_iff hd hu hv).mp hcheck
  have hpart : ∀ b ∈ u.alternatives, S b := fun b hb => h.part hd (.alternative hu hb)
  have hmem : a ∈ u.alternatives := by simp [hall]
  obtain ⟨m, hm⟩ := h.union hd hu a hmem
  obtain ⟨name, rfl, hname⟩ := record?_eq_some_iff.mp hm
  obtain ⟨z, hz, hsame⟩ := hmodels name m (hpart _ hmem) hname ha
  obtain ⟨taken, htaken⟩ := (h.accepts_union_iff hd hu hplain).mpr ⟨hfit, _, hmem, z, hz⟩
  refine ⟨taken, htaken, fun hsteady => ?_⟩
  have hagain : r.check (.named key) w.snapshot = .ok w := by
    refine (h.check_union_eq_ok_iff hd hu hplain).mpr ⟨hfit, before, _, after, hall, hsame hsteady ▸ hz, ?_⟩
    intro b hb haccepts
    have hbS : S b := hpart b (by simp [hall, hb])
    exact hbefore b hb (h.accepts_of_snapshot hsteady hbS (hpart _ hmem) hv ha haccepts)
  exact Except.ok.inj (htaken.symm.trans hagain)

/-- The snapshot of what is made of plain data is loaded by the descriptor that made it, and with steady
records the same is made again. -/
theorem reload (h : r.Orderly S) (hd : S d) (hv : v.IsPlain) (hcheck : r.check d v = .ok w) :
    ∃ z, r.check d w.snapshot = .ok z ∧ (r.Steady S → z = w) := by
  induction hsize : sizeOf v using Nat.strongRecOn generalizing d v w with
  | ind size ih =>
    subst hsize
    have hmodel : ∀ name m w, S (.named name) → r.find? name = some (.model m) →
        r.check (.named name) v = .ok w →
        ∃ z, r.check (.named name) w.snapshot = .ok z ∧ (r.Steady S → z = w) := by
      intro name m w hname hm hcheck
      obtain ⟨entries, rfl⟩ := exists_dict_of_model hm hv hcheck
      refine h.reload_record hname hm hcheck fun d x y hd hx hxy => ?_
      obtain ⟨property, hunder⟩ := hx
      have hsmaller : sizeOf x < sizeOf (Value.dict entries) := by
        have hsize := Value.sizeOf_under hunder
        simp only [Value.dict.sizeOf_spec]
        omega
      exact ih _ hsmaller hd (hv.entry (Value.mem_of_under? hunder)) hxy rfl
    induction d generalizing w with
    | map item => exact absurd hd h.noMap
    | basic b =>
      have hsame := hcheck
      rw [check, validate_basic] at hsame
      exact reload_same hv hcheck (Basic.validate_eq_ok_iff.mp hsame).1
    | maybeNull inner ihd =>
      by_cases hnull : v = .null
      · subst hnull
        have hsame := hcheck
        rw [check, validate_maybeNull_null] at hsame
        exact reload_same hv hcheck (Except.ok.inj hsame).symm
      · rw [check, validate_maybeNull hnull] at hcheck
        have hinner := embed_eq_ok_iff.mp hcheck
        by_cases hw : w.snapshot = .null
        · rw [hw]
          exact ⟨.null, validate_maybeNull_null inner, fun _ => (Value.eq_null_of_snapshot hw).symm⟩
        · obtain ⟨z, hz, hsame⟩ := ihd (h.part hd (.maybeNull inner)) hinner
          refine ⟨z, ?_, hsame⟩
          rw [check, validate_maybeNull hw]
          exact embed_eq_ok_iff.mpr hz
    | array item ihd =>
      obtain ⟨items, -, hitems, -⟩ := validate_array_eq_ok_iff.mp hcheck
      obtain ⟨rfl, hplain⟩ := hv.eq_list hitems
      exact reload_list hcheck fun x hx y hxy =>
        ih _ (Value.sizeOf_item rfl hx) (h.part hd (.array item)) (hplain x hx) hxy rfl
    | named key =>
      obtain ⟨definition, hfind⟩ := h.found hd
      have hsame := hcheck
      cases definition with
      | basic b =>
        rw [check, validate_named_basic hfind] at hsame
        exact reload_same hv hcheck (Basic.validate_eq_ok_iff.mp hsame).1
      | enumeration e =>
        rw [check, validate_named_enumeration hfind] at hsame
        exact reload_same hv hcheck (Enumeration.validate_eq_ok_iff.mp hsame).1
      | model m => exact hmodel key m w hd hfind hcheck
      | union u => exact h.reload_union hd hfind hv hcheck fun name m => hmodel name m w

end Orderly

theorem create_union_eq_ok_iff (hu : r.find? key = some (.union u)) (hends : r.nameEnds (.named key) = true) :
    r.create (.named key) v = .ok w ↔ r.check (.named key) v = .ok w := by
  have hrecord : r.record? (.named key) = none := by simp [record?, model?, hu]
  have hinput : r.input (.named key) v = v := by
    unfold input
    split
    · next hm =>
      rw [hrecord] at hm
      cases hm
    · rfl
  rw [create_eq_ok_iff, and_iff_right hends, hinput]

theorem Orderly.create_union_eq_ok_iff (h : r.Orderly S) (hd : S (.named key))
    (hu : r.find? key = some (.union u)) :
    r.create (.named key) v = .ok w ↔ r.check (.named key) v = .ok w := by
  obtain ⟨name, hname⟩ := typeName?_union hu (h.union hd hu)
  exact Registry.create_union_eq_ok_iff hu (nameEnds_of_typeName? hname)

/-- What a union makes of plain data is an instance of one of its alternatives. -/
theorem Orderly.exists_instance (h : r.Orderly S) (hd : S (.named key)) (hu : r.find? key = some (.union u))
    (hv : v.IsPlain) (hcheck : r.check (.named key) v = .ok w) : ∃ name m properties,
      .named name ∈ u.alternatives ∧ r.find? name = some (.model m) ∧
      w = .record none name m.name properties := by
  obtain ⟨-, before, a, after, hall, ha, -⟩ := (h.check_union_eq_ok_iff hd hu hv).mp hcheck
  have hmem : a ∈ u.alternatives := by simp [hall]
  obtain ⟨m, hm⟩ := h.union hd hu a hmem
  obtain ⟨name, rfl, hname⟩ := record?_eq_some_iff.mp hm
  obtain ⟨entries, rfl⟩ := exists_dict_of_model hname hv ha
  obtain ⟨-, parts, -, rfl⟩ := (validate_dict_eq_ok_iff hname (fault?_of_check hname ha)).mp ha
  exact ⟨name, m, _, hmem, hname, rfl⟩

end Registry

end CheckedModels
