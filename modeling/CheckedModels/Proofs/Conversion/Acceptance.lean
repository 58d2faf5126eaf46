import CheckedModels.Compile.Scope
import CheckedModels.Proofs.Entries
import CheckedModels.Proofs.Conversion.Validate

/-! Which plain data is accepted, layer by layer. -/
namespace CheckedModels

/-- Data without any instance. -/
inductive Value.IsPlain : Value → Prop where
  | scalar (s : Scalar) : IsPlain (.scalar s)
  | list {items : List Value} (h : ∀ x ∈ items, IsPlain x) : IsPlain (.list items)
  | dict {entries : List (Scalar × Value)} (h : ∀ e ∈ entries, IsPlain e.2) : IsPlain (.dict entries)

namespace Value

mutual

theorem isPlain_ofJson : ∀ j : Json, (ofJson j).IsPlain
  | .null => .scalar _
  | .bool _ => .scalar _
  | .int _ => .scalar _
  | .float _ => .scalar _
  | .str _ => .scalar _
  | .arr items => .list (isPlain_ofJsonItems items)
  | .obj members => .dict (isPlain_ofJsonMembers members)

theorem isPlain_ofJsonItems : ∀ items : List Json, ∀ x ∈ ofJsonItems items, x.IsPlain
  | [], x, h => by simp [ofJsonItems] at h
  | j :: rest, x, h => by
    rcases List.mem_cons.mp h with rfl | h
    · exact isPlain_ofJson j
    · exact isPlain_ofJsonItems rest x h

theorem isPlain_ofJsonMembers : ∀ members : List (Text × Json), ∀ e ∈ ofJsonMembers members, e.2.IsPlain
  | [], e, h => by simp [ofJsonMembers] at h
  | (_, j) :: rest, e, h => by
    rcases List.mem_cons.mp h with rfl | h
    · exact isPlain_ofJson j
    · exact isPlain_ofJsonMembers rest e h

end

theorem IsPlain.ne_instance {v : Value} (h : v.IsPlain) (serial : Option Nat) (model name : String)
    (attributes : Entries String) (held : Entries Value) :
    v ≠ .instance serial model name attributes held := by
  cases h <;> simp

/-- Plain data has no items unless it is a list. -/
theorem IsPlain.eq_list {v : Value} (h : v.IsPlain) {items : List Value} (hi : v.items? = some items) :
    v = .list items ∧ ∀ x ∈ items, x.IsPlain := by
  cases h with
  | list hall =>
    obtain rfl := Option.some.inj hi
    exact ⟨rfl, hall⟩
  | scalar | dict => cases hi

theorem mem_of_under? {entries : List (Scalar × Value)} {key : String} {v : Value}
    (h : under? entries key = some v) : (Scalar.str (.whole key), v) ∈ entries := by
  induction entries with
  | nil => simp [under?] at h
  | cons e rest ih =>
    unfold under? at h
    split at h
    · simp at h
    · next k w tail heq =>
      obtain ⟨rfl, rfl⟩ := List.cons.inj heq
      split at h
      · next hk =>
        obtain rfl : w = v := Option.some.inj h
        rw [hk]
        exact List.mem_cons_self
      · exact List.mem_cons_of_mem _ (ih h)
    · next heq =>
      obtain ⟨rfl, rfl⟩ := List.cons.inj heq
      exact List.mem_cons_of_mem _ (ih h)

end Value

/-- A value reads as a type tree: null only where nothing marks the position, a list with every item
read in turn, and `P` tells which values a name takes. -/
inductive TypeRef.Admits (P : String → Value → Prop) : Bool → TypeRef → Value → Prop where
  | null {name : String} : Admits P true (.named name) .null
  | nullList {item : TypeRef} : Admits P true (.list item) .null
  | named {nullable : Bool} {name : String} {v : Value} (h : P name v) : Admits P nullable (.named name) v
  | list {nullable : Bool} {item : TypeRef} {items : List Value} (h : ∀ x ∈ items, Admits P true item x) :
    Admits P nullable (.list item) (.list items)
  | nonNull {nullable : Bool} {inner : TypeRef} {v : Value} (h : Admits P false inner v) :
    Admits P nullable (.nonNull inner) v

namespace TypeRef

variable {P : String → Value → Prop} {nullable : Bool} {v : Value}

theorem admits_named_iff {name : String} :
    Admits P nullable (.named name) v ↔ nullable = true ∧ v = .null ∨ P name v := by
  constructor
  · intro h
    cases h with
    | null => exact .inl ⟨rfl, rfl⟩
    | named h => exact .inr h
  · rintro (⟨rfl, rfl⟩ | h)
    · exact .null
    · exact .named h

theorem admits_list_iff {item : TypeRef} : Admits P nullable (.list item) v ↔
    nullable = true ∧ v = .null ∨ ∃ items, v = .list items ∧ ∀ x ∈ items, Admits P true item x := by
  constructor
  · intro h
    cases h with
    | nullList => exact .inl ⟨rfl, rfl⟩
    | list h => exact .inr ⟨_, rfl, h⟩
  · rintro (⟨rfl, rfl⟩ | ⟨items, rfl, h⟩)
    · exact .nullList
    · exact .list h

theorem admits_nonNull_iff {inner : TypeRef} :
    Admits P nullable (.nonNull inner) v ↔ Admits P false inner v := by
  constructor
  · intro h
    cases h with
    | nonNull h => exact h
  · exact .nonNull

end TypeRef

/-- Which values a basic descriptor takes. -/
def Basic.Takes : Basic → Value → Prop
  | .string, v | .identifier, v => ∃ t, v = .scalar (.str t)
  | .number, v => (∃ n, v = .scalar (.int n)) ∨ ∃ x, v = .scalar (.float x)
  | .boolean, v => ∃ b, v = .scalar (.bool b)
  | .frozen, _ => True

namespace Registry

open Outcome

variable {r : Registry} {unions : Nat} {p : Prop} {v : Value}

theorem decides_basic (b : Basic) (v : Value) : Decides (b.Takes v) (b.validate v) := by
  unfold Basic.validate
  split
  · exact .accepted trivial _
  · exact .accepted ⟨_, rfl⟩ _
  · exact .accepted ⟨_, rfl⟩ _
  · next h => exact decides_reject (fun ⟨t, ht⟩ => h t ht) _
  · next h => exact decides_reject (fun ⟨t, ht⟩ => h t ht) _
  · exact .accepted (.inl ⟨_, rfl⟩) _
  · exact .accepted (.inr ⟨_, rfl⟩) _
  · next hi hx => exact .rejected (fun h => h.elim (fun ⟨n, hn⟩ => hi n hn) fun ⟨x, h⟩ => hx x h) _
  · exact .accepted ⟨_, rfl⟩ _
  · next h => exact decides_reject (fun ⟨b, hb⟩ => h b hb) _

theorem decides_enumeration (e : Enumeration) (v : Value) :
    Decides (∃ x ∈ e.values, v = .str x) (e.validate v) := by
  unfold Enumeration.validate
  split
  · next h =>
    rw [List.isEmpty_iff.mp h]
    exact decides_reject (by simp) _
  · split
    · next x =>
      split
      · next h => exact .accepted ⟨x, h, rfl⟩ _
      · next h => exact decides_reject (by simpa using h) _
    · next h => exact decides_reject (fun ⟨x, _, hx⟩ => h x (by simpa using hx)) _
    · next h _ => exact decides_reject (fun ⟨x, _, hx⟩ => h x hx) _

theorem decides_embed {x : Outcome} (h : Decides p x) (d : Descriptor) : Decides p (r.embed d x) := by
  unfold embed
  split
  · exact h.embed _
  · exact h

theorem decides_maybeNull {inner : Descriptor} (h : Decides p (r.validate unions inner v)) :
    Decides (v = .null ∨ p) (r.validate unions (.maybeNull inner) v) := by
  by_cases hv : v = .null
  · subst hv
    rw [validate_maybeNull_null]
    exact .accepted (.inl rfl) _
  · rw [validate_maybeNull hv]
    exact (decides_embed h inner).congr (by simp [hv])

theorem decides_array {item : Descriptor} {P : Value → Prop}
    (h : ∀ items, v.items? = some items → ∀ x ∈ items, Decides (P x) (r.check item x)) :
    Decides (∃ items, v.items? = some items ∧ ∀ x ∈ items, P x) (r.validate unions (.array item) v) := by
  cases hv : v.items? with
  | some items =>
    have hparts : ∀ (place : Nat → Step) (xs : List Value), (∀ x ∈ xs, Decides (P x) (r.check item x)) →
        List.Forall₂ (fun part p => Decides p part.2)
          (xs.mapIdx fun i x => (place i, r.embed item (r.check item x))) (xs.map P) := by
      intro place xs hxs
      induction xs generalizing place with
      | nil => exact .nil
      | cons x rest ih =>
        rw [List.mapIdx_cons, List.map_cons]
        refine .cons (decides_embed (hxs x List.mem_cons_self) item) ?_
        exact ih (fun i => place (i + 1)) fun y hy => hxs y (List.mem_cons_of_mem _ hy)
    rw [validate_array hv]
    have hall := (decides_gather (hparts (fun i => Step.index i) items (h items hv))).map Value.list
    exact hall.congr ((List.forall_mem_map (P := id)).trans (by simp))
  | none =>
    rw [validate_array_of_none hv]
    exact decides_reject (by simp) _

theorem decides_strays (c : RecordClass) (entries : List (Scalar × Value)) :
    List.Forall₂ (fun part p => Decides p part.2) (c.strays entries)
      ((c.strays entries).map fun _ => False) := by
  refine List.forall₂_map_right_iff.mpr (List.forall₂_same.mpr fun part hpart => ?_)
  obtain ⟨cause, hcause⟩ := exists_cause_of_mem_strays hpart
  rw [hcause]
  exact decides_reject id cause

theorem strays_eq_nil_iff {m : Model} {entries : List (Scalar × Value)} : m.toClass.strays entries = [] ↔
    ∀ e ∈ entries, ∃ name ∈ m.properties.keys, e.1 = .str (.whole name) := by
  unfold RecordClass.strays
  rw [m.keys_toClass, List.filterMap_eq_nil_iff]
  refine forall₂_congr fun e _ => ?_
  obtain ⟨key, x⟩ := e
  dsimp only
  split
  · next name => simp
  · next h => simpa using fun name _ heq => h name heq

theorem decides_settle {parts : Except Failure (List Value)} (h : Decides p parts)
    (entries : List (Scalar × Value)) :
    Decides (p ∧ ∀ e ∈ entries, e.1.isBroken = false) (RecordClass.settle entries parts) := by
  unfold RecordClass.settle
  split
  · cases h
  · split
    · next hb =>
      refine decides_reject (fun hp => ?_) _
      obtain ⟨e, he, hbroken⟩ := List.any_eq_true.mp hb
      simp [hp.2 e he] at hbroken
    · next hb =>
      refine h.congr ⟨fun hp => ⟨hp, fun e he => ?_⟩, And.left⟩
      exact Bool.eq_false_iff.mpr fun hbroken => hb (List.any_eq_true.mpr ⟨e, he, hbroken⟩)

/-- A dictionary is accepted for a model if all its keys are properties and each property accepts what
it finds. -/
theorem decides_dict {key : String} {m : Model} (h : r.find? key = some (.model m))
    (hf : m.fault? = none) {entries : List (Scalar × Value)} {P : String × Descriptor → Prop}
    (hparts : ∀ q ∈ m.properties, Decides (P q) (r.part entries q)) :
    Decides ((∀ e ∈ entries, ∃ name ∈ m.properties.keys, e.1 = .str (.whole name)) ∧
      ∀ q ∈ m.properties, P q) (r.validate unions (.named key) (.dict entries)) := by
  have hproperties : List.Forall₂ (fun part p => Decides p part.2)
      (m.properties.map fun q => (Step.key q.1, r.part entries q)) (m.properties.map P) :=
    List.forall₂_map_left_iff.mpr (List.forall₂_map_right_iff.mpr (List.forall₂_same.mpr hparts))
  have hall : Decides (∀ p ∈ m.properties.map P ++ (m.toClass.strays entries).map fun _ => False, p) _ :=
    decides_gather (List.rel_append hproperties (decides_strays m.toClass entries))
  rw [validate_dict h hf]
  refine ((decides_settle hall entries).map _).congr ?_
  rw [← strays_eq_nil_iff]
  constructor
  · rintro ⟨hps, -⟩
    refine ⟨?_, fun q hq => hps _ (List.mem_append_left _ (List.mem_map.mpr ⟨q, hq, rfl⟩))⟩
    refine List.eq_nil_iff_forall_not_mem.mpr fun stray hstray => ?_
    exact hps False (List.mem_append_right _ (List.mem_map.mpr ⟨stray, hstray, rfl⟩))
  · rintro ⟨hnone, hps⟩
    refine ⟨fun q hq => ?_, fun e he => ?_⟩
    · rw [hnone, List.map_nil, List.append_nil] at hq
      obtain ⟨a, ha, rfl⟩ := List.mem_map.mp hq
      exact hps a ha
    · obtain ⟨name, -, hname⟩ := strays_eq_nil_iff.mp hnone e he
      rw [hname]
      rfl

section Union

/-- The alternatives are models that are fit for use. -/
def Usable (r : Registry) (ds : List Descriptor) : Prop :=
  ∀ d ∈ ds, ∃ key m, d = .named key ∧ r.find? key = some (.model m) ∧ m.fault? = none

variable {ds : List Descriptor}

/-- Among models that are fit for use none is found for what is no instance. -/
theorem isInstanceOf_of_ne (hv : ∀ serial model name attributes held,
      v ≠ .instance serial model name attributes held)
    (hds : ∀ d ∈ ds, ∀ m, r.record? d = some m → m.fault? = none) : r.isInstanceOf v ds = .ok false := by
  induction ds with
  | nil => rfl
  | cons d rest ih =>
    have hrest := ih fun e he => hds e (List.mem_cons_of_mem _ he)
    unfold isInstanceOf
    split
    · next key m hm =>
      simp only [hds _ List.mem_cons_self m hm]
      exact hrest
    · exact hrest

theorem Usable.record? (h : r.Usable ds) : ∀ d ∈ ds, ∃ m, r.record? d = some m := by
  intro d hd
  obtain ⟨key, m, rfl, hm, -⟩ := h d hd
  exact ⟨m, record?_named hm⟩

theorem Usable.fit (h : r.Usable ds) : ∀ d ∈ ds, ∀ m, r.record? d = some m → m.fault? = none := by
  intro d hd m hm
  obtain ⟨key, m', rfl, hfind, hf⟩ := h d hd
  obtain rfl := Option.some.inj ((record?_named hfind).symm.trans hm)
  exact hf

theorem decides_union {key : String} {u : Union} (h : r.find? key = some (.union u))
    (hu : r.Usable u.alternatives) (hv : v.IsPlain) (hpos : 0 < unions) {P : Descriptor → Prop}
    (hparts : ∀ n, ∀ d ∈ u.alternatives, Decides (P d) (r.validate n d v)) :
    Decides (∃ d ∈ u.alternatives, P d) (r.validate unions (.named key) v) := by
  obtain ⟨n, rfl⟩ := Nat.exists_eq_add_one.mpr hpos
  obtain ⟨name, hname⟩ := typeName?_union h hu.record?
  rw [validate, h]
  simp only [isInstanceOf_of_ne hv.ne_instance hu.fit, hname]
  refine decides_first (decides_reject id _) fun d hd => ?_
  obtain ⟨m, hm⟩ := hu.record? d hd
  rw [onItsOwn_of_nameEnds (nameEnds_of_record hm)]
  exact hparts n d hd

end Union

theorem isMaybeNull_wrap {base : Descriptor} (hb : base.isMaybeNull = false) (t : TypeRef) :
    ∀ nullable, (t.wrap base nullable).isMaybeNull = (nullable && !t.isNonNull) := by
  have hfalse : ∀ t : TypeRef, (t.wrap base false).isMaybeNull = false := by
    intro t
    induction t with
    | named name => exact hb
    | list item => rfl
    | nonNull inner ih => exact ih
  intro nullable
  cases t with
  | named name =>
    cases nullable
    · exact hb
    · rfl
  | list item => cases nullable <;> rfl
  | nonNull inner => simpa [TypeRef.wrap, TypeRef.isNonNull] using hfalse inner

/-- A wrapped descriptor takes what the type tree admits, where the base takes what `P` says. `Q` holds
of the values in question and of the items of lists among them. -/
theorem decides_wrap {P : String → Value → Prop} {Q : Value → Prop} {base : Descriptor}
    (hpos : 0 < r.entries.length)
    (hitems : ∀ v items, Q v → v.items? = some items → v = .list items ∧ ∀ x ∈ items, Q x) (t : TypeRef) (hbase : ∀ n x, 0 < n → Q x → Decides (P t.innermost x) (r.validate n base x))
    (hunions : 0 < unions) (hv : Q v) (nullable : Bool) :
    Decides (t.Admits P nullable v) (r.validate unions (t.wrap base nullable) v) := by
  induction t generalizing v unions nullable with
  | named name =>
    have hname := hbase unions v hunions hv
    cases nullable with
    | false => exact hname.congr (by simp [TypeRef.admits_named_iff, TypeRef.innermost])
    | true =>
      exact (decides_maybeNull hname).congr (by simp [TypeRef.admits_named_iff, TypeRef.innermost])
  | list item ih =>
    have hlist (items : List Value) : v.items? = some items ↔ v = .list items :=
      ⟨fun h => (hitems v items hv h).1, fun h => h ▸ rfl⟩
    have harray : Decides (∃ items, v = .list items ∧ ∀ x ∈ items, item.Admits P true x)
        (r.validate unions (.array (item.wrap base true)) v) := by
      simp only [← hlist]
      exact decides_array fun items heq x hx => ih hbase hpos ((hitems v items hv heq).2 x hx) true
    cases nullable with
    | false => exact harray.congr (by simp [TypeRef.admits_list_iff])
    | true => exact (decides_maybeNull harray).congr (by simp [TypeRef.admits_list_iff])
  | nonNull inner ih => exact (ih hbase hunions hv false).congr TypeRef.admits_nonNull_iff.symm

theorem exists_isValid {d : Descriptor} (hends : r.nameEnds d = true) (h : Decides p (r.check d v)) :
    ∃ b, r.isValid d v = .ok b ∧ (b = true ↔ p) := by
  rw [isValid, convert, onItsOwn_of_nameEnds hends]
  generalize r.check d v = x at h
  cases h with
  | accepted hp a => exact ⟨true, rfl, fun _ => hp, fun _ => rfl⟩
  | rejected hp issues => exact ⟨false, rfl, nofun, fun h => absurd h hp⟩

end Registry

end CheckedModels
