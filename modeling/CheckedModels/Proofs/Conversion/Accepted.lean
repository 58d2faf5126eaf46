import CheckedModels.Proofs.Conversion.Acceptance

/-! What an accepted value is made of: the result of each part, taken by itself. -/
namespace CheckedModels

namespace Outcome

variable {α β : Type} {w : Value}

theorem map_eq_ok_iff {x : Except Failure α} {f : α → β} {b : β} :
    f <$> x = .ok b ↔ ∃ a, x = .ok a ∧ f a = b := by
  cases x <;> simp [Functor.map, Except.map]

theorem embed_eq_ok_iff {model : String} {x : Outcome} : embed model x = .ok w ↔ x = .ok w := by
  unfold embed
  split <;> simp [reject]

theorem gather_eq_ok_iff {parts : List (Step × Outcome)} {vs : List Value} :
    gather parts = .ok vs ↔ List.Forall₂ (fun part v => part.2 = .ok v) parts vs := by
  induction parts generalizing vs with
  | nil => simp [gather, eq_comm]
  | cons part rest ih =>
    obtain ⟨step, x⟩ := part
    rw [List.forall₂_cons_left_iff]
    simp only [← ih, gather]
    generalize gather rest = tail
    rcases x with (_ | _) | v <;> rcases tail with (_ | _) | ws <;> simp [eq_comm]

theorem mem_of_first_eq_ok {otherwise : Outcome} {parts : List Outcome} (ho : otherwise ≠ .ok w)
    (h : first otherwise parts = .ok w) : .ok w ∈ parts := by
  induction parts with
  | nil => exact absurd h ho
  | cons part rest ih =>
    unfold first at h
    split at h
    · exact absurd h ho
    · next heq =>
      obtain ⟨-, rfl⟩ := List.cons.inj heq
      exact List.mem_cons_of_mem _ (ih h)
    · next heq =>
      obtain ⟨rfl, -⟩ := List.cons.inj heq
      exact h ▸ List.mem_cons_self

theorem exists_first_eq_ok {otherwise : Outcome} {parts : List Outcome}
    (hparts : ∀ part ∈ parts, ∀ fault, Avoids fault part) (h : .ok w ∈ parts) :
    ∃ w', first otherwise parts = .ok w' := by
  induction parts with
  | nil => simp at h
  | cons part rest ih =>
    match part with
    | .ok v => exact ⟨v, rfl⟩
    | .error (.rejected issues) =>
      have hrest : .ok w ∈ rest := (List.mem_cons.mp h).resolve_left nofun
      exact ih (fun part hp => hparts part (List.mem_cons_of_mem _ hp)) hrest
    | .error (.broken fault) => exact absurd rfl (hparts _ List.mem_cons_self fault)

end Outcome

/-- The entries of a dictionary, or the items of a value that has items but no keys. -/
def Value.given? : Value → Option (List (Option Scalar × Value))
  | .dict entries => some (entries.map fun e => (some e.1, e.2))
  | v => v.items?.map (List.map fun x => (none, x))

theorem Value.sizeOf_given {v : Value} {given : List (Option Scalar × Value)} (h : v.given? = some given)
    {g : Option Scalar × Value} (hg : g ∈ given) : sizeOf g.2 < sizeOf v := by
  unfold given? at h
  split at h
  · obtain rfl := Option.some.inj h
    obtain ⟨e, he, rfl⟩ := List.mem_map.mp hg
    exact sizeOf_value he
  · obtain ⟨items, hitems, rfl⟩ := Option.map_eq_some_iff.mp h
    obtain ⟨x, hx, rfl⟩ := List.mem_map.mp hg
    exact sizeOf_item hitems hx

namespace Collection

/-- The part is accepted, and its result goes under this key. -/
def Enters (property : Option String) (part : Option Scalar × Outcome) (e : Text × Value) : Prop :=
  part.2 = .ok e.2 ∧ entryKey (property.bind (identifierOf? · e.2)) part.1 = .ok e.1

theorem index_eq_ok_iff {property : Option String} {parts : List (Option Scalar × Outcome)}
    {done out : List (Text × Value)} (distinct : (done.map Prod.fst).Nodup) :
    index property done parts = .ok out ↔
      ∃ more, out = done ++ more ∧ (out.map Prod.fst).Nodup ∧ List.Forall₂ (Enters property) parts more := by
  induction parts generalizing done with
  | nil =>
    constructor
    · intro h
      obtain rfl := Except.ok.inj h
      exact ⟨[], (List.append_nil _).symm, distinct, .nil⟩
    · rintro ⟨more, rfl, -, hmore⟩
      cases hmore
      rw [List.append_nil]
      rfl
  | cons part rest ih =>
    obtain ⟨given, x⟩ := part
    have hsnoc (made : Value) (key : Text) :
        ((done ++ [(key, made)]).map Prod.fst).Nodup ↔ key ∉ done.map Prod.fst := by
      rw [List.map_append, List.nodup_append_comm]
      simp [distinct]
    constructor
    · intro h
      cases x with
      | error e => cases h
      | ok made =>
        cases hkey : entryKey (property.bind (identifierOf? · made)) given with
        | error e => simp [index, hkey, Bind.bind, Except.bind] at h
        | ok key =>
          simp only [index, hkey, Bind.bind, Except.bind] at h
          split at h
          · cases h
          · next hnew =>
            obtain ⟨more, rfl, hout, hmore⟩ := (ih ((hsnoc made key).mpr hnew)).mp h
            exact ⟨(key, made) :: more, by simp, hout, .cons ⟨rfl, hkey⟩ hmore⟩
    · rintro ⟨more, rfl, hout, hmore⟩
      cases hmore with
      | @cons _ e _ more henters hmore =>
        obtain ⟨key, made⟩ := e
        obtain ⟨rfl, hkey⟩ : x = .ok made ∧ entryKey (property.bind (identifierOf? · made)) given = .ok key :=
          henters
        have hassoc : done ++ (key, made) :: more = (done ++ [(key, made)]) ++ more := by simp
        have hnew : key ∉ done.map Prod.fst := by
          refine (hsnoc made key).mp ?_
          rw [hassoc, List.map_append] at hout
          exact (List.nodup_append.mp hout).1
        simp only [index, hkey, Bind.bind, Except.bind, hnew, if_false]
        exact (ih ((hsnoc made key).mpr hnew)).mpr ⟨more, hassoc, hout, hmore⟩

end Collection

theorem Basic.validate_eq_ok_iff {b : Basic} {v w : Value} :
    b.validate v = .ok w ↔ w = v ∧ b.Takes v := by
  constructor
  · intro h
    have hdecides := Registry.decides_basic b v
    rw [h] at hdecides
    cases hdecides with
    | accepted htakes =>
      refine ⟨?_, htakes⟩
      unfold Basic.validate at h
      split at h <;> simp_all [Outcome.reject]
  · rintro ⟨rfl, htakes⟩
    cases b with
    | frozen => rfl
    | string | identifier =>
      obtain ⟨t, rfl⟩ := htakes
      rfl
    | number => rcases htakes with ⟨n, rfl⟩ | ⟨x, rfl⟩ <;> rfl
    | boolean =>
      obtain ⟨b, rfl⟩ := htakes
      rfl

theorem Basic.Takes.exists_scalar {b : Basic} {v : Value} (h : b.Takes v) (hb : b ≠ .frozen) :
    ∃ s, v = .scalar s := by
  cases b with
  | frozen => exact absurd rfl hb
  | string | identifier =>
    obtain ⟨t, rfl⟩ := h
    exact ⟨_, rfl⟩
  | number => rcases h with ⟨n, rfl⟩ | ⟨x, rfl⟩ <;> exact ⟨_, rfl⟩
  | boolean =>
    obtain ⟨b, rfl⟩ := h
    exact ⟨_, rfl⟩

theorem Enumeration.validate_eq_ok_iff {e : Enumeration} {v w : Value} :
    e.validate v = .ok w ↔ w = v ∧ ∃ s ∈ e.values, v = .str s := by
  constructor
  · intro h
    have hdecides := Registry.decides_enumeration e v
    rw [h] at hdecides
    cases hdecides with
    | accepted hmember =>
      obtain ⟨s, hs, rfl⟩ := hmember
      have hne : e.values ≠ [] := List.ne_nil_of_mem hs
      simp only [Enumeration.validate, List.isEmpty_iff, hne, if_false, hs, if_true] at h
      exact ⟨(Except.ok.inj h).symm, s, hs, rfl⟩
  · rintro ⟨rfl, s, hs, rfl⟩
    have hne : e.values ≠ [] := List.ne_nil_of_mem hs
    simp [Enumeration.validate, hne, hs]

theorem RecordClass.settle_eq_ok_iff {entries : List (Scalar × Value)} {parts : Except Failure (List Value)}
    {vs : List Value} :
    settle entries parts = .ok vs ↔ parts = .ok vs ∧ ∀ e ∈ entries, e.1.isBroken = false := by
  unfold settle
  split
  · simp [Outcome.broken]
  · split
    · next h =>
      obtain ⟨e, he, hbroken⟩ := List.any_eq_true.mp h
      constructor
      · intro hbreaks
        cases hbreaks
      · rintro ⟨-, hnone⟩
        simp [hnone e he] at hbroken
    · next h =>
      refine (and_iff_left fun e he => ?_).symm
      exact Bool.eq_false_iff.mpr fun hbroken => h (List.any_eq_true.mpr ⟨e, he, hbroken⟩)

namespace Registry

variable {r : Registry} {unions : Nat} {key : String} {m : Model} {w : Value}

theorem embed_eq_ok_iff {d : Descriptor} {x : Outcome} : r.embed d x = .ok w ↔ x = .ok w := by
  unfold embed
  split
  · exact Outcome.embed_eq_ok_iff
  · exact Iff.rfl

theorem validate_array_eq_ok_iff {item : Descriptor} {v : Value} :
    r.validate unions (.array item) v = .ok w ↔ ∃ items ws, v.items? = some items ∧
      List.Forall₂ (fun x y => r.check item x = .ok y) items ws ∧ w = .list ws := by
  have hparts : ∀ (place : Nat → Step) (xs ws : List Value),
      List.Forall₂ (fun (part : Step × Outcome) v => part.2 = .ok v)
        (xs.mapIdx fun i x => (place i, r.embed item (r.check item x))) ws ↔
      List.Forall₂ (fun x y => r.check item x = .ok y) xs ws := by
    intro place xs
    induction xs generalizing place with
    | nil => simp
    | cons x rest ih =>
      intro ws
      rw [List.mapIdx_cons, List.forall₂_cons_left_iff, List.forall₂_cons_left_iff]
      simp only [ih fun i => place (i + 1), embed_eq_ok_iff]
  cases hv : v.items? with
  | none =>
    rw [validate_array_of_none hv]
    simp [Outcome.reject]
  | some items =>
    rw [validate_array hv, Outcome.map_eq_ok_iff]
    simp only [Outcome.gather_eq_ok_iff, hparts, eq_comm (a := Value.list _), Option.some.injEq,
      exists_and_left, exists_eq_left']

theorem validate_list_eq_ok_iff {item : Descriptor} {items : List Value} :
    r.validate unions (.array item) (.list items) = .ok w ↔
      ∃ ws, List.Forall₂ (fun x y => r.check item x = .ok y) items ws ∧ w = .list ws := by
  simp only [validate_array_eq_ok_iff, Value.items?, Option.some.injEq, exists_and_left, exists_eq_left']

theorem convert_eq_ok_iff {d : Descriptor} {v : Value} :
    r.convert d v = .ok w ↔ r.nameEnds d = true ∧ r.check d v = .ok w := by
  unfold convert onItsOwn
  split
  · next h => simp [h]
  · next h => simp [h, Outcome.broken]

theorem create_eq_ok_iff {d : Descriptor} {v : Value} :
    r.create d v = .ok w ↔ r.nameEnds d = true ∧ r.check d (r.input d v) = .ok w := by
  rw [← convert_eq_ok_iff]
  unfold create
  split
  · simp_all
  · next h => split <;> simp [h]
  · next h => simp [h]

theorem omitted_eq_ok_iff {d : Descriptor} :
    Model.omitted d = .ok w ↔ ∃ inner, d = .maybeNull inner ∧ w = .null := by
  unfold Model.omitted
  cases d <;> simp [Descriptor.isMaybeNull, Outcome.reject, eq_comm]

/-- A model is built from a dictionary that has no other entries than its properties. -/
theorem validate_dict_eq_ok_iff (h : r.find? key = some (.model m)) (hf : m.fault? = none)
    {entries : List (Scalar × Value)} : r.validate unions (.named key) (.dict entries) = .ok w ↔
      (∀ e ∈ entries, ∃ name ∈ m.properties.keys, e.1 = .str (.whole name)) ∧
      ∃ vs, List.Forall₂ (fun p v => r.part entries p = .ok v) m.properties vs ∧ w = m.build key vs := by
  rw [validate_dict h hf, Outcome.map_eq_ok_iff, ← strays_eq_nil_iff]
  constructor
  · rintro ⟨vs, hvs, rfl⟩
    obtain ⟨hgather, -⟩ := RecordClass.settle_eq_ok_iff.mp hvs
    have hparts := Outcome.gather_eq_ok_iff.mp hgather
    have hnone : m.toClass.strays entries = [] := by
      refine List.eq_nil_iff_forall_not_mem.mpr fun part hpart => ?_
      obtain ⟨v, -, hv⟩ := Entries.exists_rel_of_mem hparts.flip (List.mem_append_right _ hpart)
      obtain ⟨cause, hcause⟩ := exists_cause_of_mem_strays hpart
      rw [hcause] at hv
      cases hv
    rw [hnone, List.append_nil, List.forall₂_map_left_iff] at hparts
    exact ⟨hnone, vs, hparts, m.build_toClass hparts.length_eq.symm key⟩
  · rintro ⟨hnone, vs, hparts, rfl⟩
    refine ⟨vs, RecordClass.settle_eq_ok_iff.mpr ⟨?_, fun e he => ?_⟩,
      m.build_toClass hparts.length_eq.symm key⟩
    · rw [hnone, List.append_nil, Outcome.gather_eq_ok_iff, List.forall₂_map_left_iff]
      exact hparts
    · obtain ⟨name, -, hname⟩ := strays_eq_nil_iff.mp hnone e he
      rw [hname]
      rfl

theorem validate_map (h : r.find? key = some (.model m)) (entries : List (Scalar × Value)) :
    r.validate unions (.map (.named key)) (.dict entries) = Collection.toDict <$>
      Collection.index m.identifierName? [] (entries.map fun e =>
        (some e.1, r.embed (.named key) (r.check (.named key) e.2))) := by
  have hattach : entries.attach.map (fun e =>
      (some e.1.1, r.embed (.named key) (r.check (.named key) e.1.2))) =
      entries.map fun e => (some e.1, r.embed (.named key) (r.check (.named key) e.2)) := by
    conv_rhs => rw [← List.attach_map_subtype_val entries, List.map_map]
    rfl
  rw [validate, record?_named h]
  exact congrArg (fun parts => Collection.toDict <$> Collection.index m.identifierName? [] parts) hattach

theorem validate_map_eq_ok_iff (h : r.find? key = some (.model m)) {entries : List (Scalar × Value)} :
    r.validate unions (.map (.named key)) (.dict entries) = .ok w ↔
      ∃ made, (made.map Prod.fst).Nodup ∧
        List.Forall₂ (fun e x => Collection.Enters m.identifierName? (some e.1, r.check (.named key) e.2) x)
          entries made ∧ w = Collection.toDict made := by
  rw [validate_map h, Outcome.map_eq_ok_iff]
  refine exists_congr fun made => ?_
  rw [@Collection.index_eq_ok_iff _ _ [] made List.nodup_nil]
  simp only [List.nil_append, exists_eq_left', List.forall₂_map_left_iff, Collection.Enters,
    embed_eq_ok_iff, and_assoc, eq_comm (a := Collection.toDict made)]

theorem validate_items {id : String} (h : r.find? key = some (.model m)) (hid : m.identifier? = some id)
    {v : Value} {items : List Value} (hv : v.items? = some items) :
    r.validate unions (.map (.named key)) v = Collection.toDict <$>
      Collection.index m.identifierName? [] (items.map fun x =>
        (none, r.embed (.named key) (r.check (.named key) x))) := by
  have hattach : items.attach.map (fun x =>
      ((none : Option Scalar), r.embed (.named key) (r.check (.named key) x.1))) =
      items.map fun x => (none, r.embed (.named key) (r.check (.named key) x)) := by
    conv_rhs => rw [← List.attach_map_subtype_val items, List.map_map]
    rfl
  rw [validate, record?_named h]
  dsimp only
  split
  · cases hv
  · split
    · next given hgiven =>
      obtain rfl := Option.some.inj (hgiven.symm.trans hv)
      simp only [hid, Option.isNone_some, Bool.false_eq_true, if_false]
      exact congrArg (fun parts => Collection.toDict <$> Collection.index m.identifierName? [] parts) hattach
    · next hnone => cases hnone.symm.trans hv

theorem validate_items_eq_ok_iff {id : String} (h : r.find? key = some (.model m))
    (hid : m.identifier? = some id) {v : Value} {items : List Value} (hv : v.items? = some items) :
    r.validate unions (.map (.named key)) v = .ok w ↔
      ∃ made, (made.map Prod.fst).Nodup ∧
        List.Forall₂ (fun v x => Collection.Enters m.identifierName? (none, r.check (.named key) v) x)
          items made ∧ w = Collection.toDict made := by
  rw [validate_items h hid hv, Outcome.map_eq_ok_iff]
  refine exists_congr fun made => ?_
  rw [@Collection.index_eq_ok_iff _ _ [] made List.nodup_nil]
  simp only [List.nil_append, exists_eq_left', List.forall₂_map_left_iff, Collection.Enters,
    embed_eq_ok_iff, and_assoc, eq_comm (a := Collection.toDict made)]

theorem validate_maybeNull_eq_ok_iff {inner : Descriptor} {v : Value} :
    r.validate unions (.maybeNull inner) v = .ok w ↔
      v = .null ∧ w = .null ∨ v ≠ .null ∧ r.validate unions inner v = .ok w := by
  by_cases hv : v = .null
  · subst hv
    rw [validate_maybeNull_null]
    simp [eq_comm]
  · rw [validate_maybeNull hv, embed_eq_ok_iff]
    simp [hv]

/-- A collection is made of models, one for each entry or item. -/
theorem exists_given_of_validate {item : Descriptor} {v : Value} (h : r.validate unions (.map item) v = .ok w) :
    ∃ key m given made, item = .named key ∧ r.find? key = some (.model m) ∧ v.given? = some given ∧
      (made.map Prod.fst).Nodup ∧ List.Forall₂ (fun g x =>
        Collection.Enters m.identifierName? (g.1, r.check (.named key) g.2) x) given made ∧
      w = Collection.toDict made := by
  cases hm : r.record? item with
  | none =>
    rw [validate, hm] at h
    cases h
  | some m =>
    obtain ⟨key, rfl, hfind⟩ := record?_eq_some_iff.mp hm
    by_cases hdict : ∃ entries, v = .dict entries
    · obtain ⟨entries, rfl⟩ := hdict
      obtain ⟨made, distinct, hmade, rfl⟩ := (validate_map_eq_ok_iff hfind).mp h
      exact ⟨key, m, _, made, rfl, hfind, rfl, distinct, List.forall₂_map_left_iff.mpr hmade, rfl⟩
    · have hgiven : v.given? = v.items?.map (List.map fun x => (none, x)) := by
        cases v <;> first | rfl | exact absurd ⟨_, rfl⟩ hdict
      cases hitems : v.items? with
      | none =>
        rw [validate, hm] at h
        dsimp only at h
        split at h
        · exact absurd ⟨_, rfl⟩ hdict
        · split at h
          · next hsome => cases hitems.symm.trans hsome
          · cases h
      | some items =>
        cases hid : m.identifier? with
        | none =>
          rw [validate, hm] at h
          dsimp only at h
          split at h
          · exact absurd ⟨_, rfl⟩ hdict
          · split at h
            · simp [hid, Outcome.reject] at h
            · cases h
        | some id =>
          obtain ⟨made, distinct, hmade, rfl⟩ := (validate_items_eq_ok_iff hfind hid hitems).mp h
          refine ⟨key, m, _, made, rfl, hfind, by rw [hgiven, hitems, Option.map_some], distinct, ?_, rfl⟩
          exact List.forall₂_map_left_iff.mpr hmade

/-- A model takes its own instances as they are, and other than these only dictionaries. -/
theorem validate_model_eq_ok (hm : r.find? key = some (.model m)) {v : Value}
    (h : r.validate unions (.named key) v = .ok w) : m.fault? = none ∧
      ((∃ entries, v = .dict entries) ∨
        w = v ∧ ∃ serial name attributes held, v = .instance serial key name attributes held) := by
  have hf : m.fault? = none := by
    cases hf : m.fault? with
    | none => rfl
    | some fault =>
      rw [validate_fault hm hf] at h
      cases h
  refine ⟨hf, ?_⟩
  rw [validate, hm] at h
  simp only [hf] at h
  split at h
  · exact .inl ⟨_, rfl⟩
  · next serial model name attributes held =>
    split at h
    · next heq =>
      subst heq
      exact .inr ⟨(Except.ok.inj h).symm, serial, name, attributes, held, rfl⟩
    · cases h
  · cases h

/-- A union takes an instance of an alternative as it is, and makes of other values what an alternative
makes of them. -/
theorem validate_union_eq_ok {u : Union} (hu : r.find? key = some (.union u)) {v : Value}
    (h : r.validate unions (.named key) v = .ok w) :
    r.isInstanceOf v u.alternatives = .ok true ∧ w = v ∨
      r.isInstanceOf v u.alternatives = .ok false ∧ ∃ n a, unions = n + 1 ∧ a ∈ u.alternatives ∧
        r.validate n a v = .ok w := by
  rw [validate, hu] at h
  dsimp only at h
  split at h
  · cases h
  · next hinstance => exact .inl ⟨hinstance, (Except.ok.inj h).symm⟩
  · next hinstance =>
    refine .inr ⟨hinstance, ?_⟩
    split at h
    · cases h
    · next n =>
      have hmem := Outcome.mem_of_first_eq_ok (by split <;> simp [Outcome.reject, Outcome.broken]) h
      obtain ⟨a, ha, hok⟩ := List.mem_map.mp hmem
      refine ⟨n, a, rfl, ha, ?_⟩
      unfold onItsOwn at hok
      split at hok
      · exact hok
      · cases hok

/-- What comes of a value under a key, by what is registered there. -/
inductive ByKey (r : Registry) (unions : Nat) (key : String) : Value → Value → Prop where
  | basic {b : Basic} {v : Value} (h : r.find? key = some (.basic b)) (hv : b.Takes v) : ByKey r unions key v v
  | enumeration {e : Enumeration} {s : String} (h : r.find? key = some (.enumeration e)) (hs : s ∈ e.values) :
    ByKey r unions key (.str s) (.str s)
  | record {m : Model} {entries : List (Scalar × Value)} {parts : List Value} (h : r.find? key = some (.model m))
    (fit : m.fault? = none) (hparts : List.Forall₂ (fun p y => r.part entries p = .ok y) m.properties parts) :
    ByKey r unions key (.dict entries) (m.build key parts)
  | same {m : Model} (h : r.find? key = some (.model m)) (fit : m.fault? = none) (serial : Option Nat)
    (name : String) (attributes : Entries String) (held : Entries Value) :
    ByKey r unions key (.instance serial key name attributes held) (.instance serial key name attributes held)
  | member {u : Union} {v : Value} (h : r.find? key = some (.union u))
    (hv : r.isInstanceOf v u.alternatives = .ok true) : ByKey r unions key v v
  | alternative {u : Union} {d : Descriptor} {n : Nat} {v w : Value} (h : r.find? key = some (.union u))
    (hv : r.isInstanceOf v u.alternatives = .ok false) (hd : d ∈ u.alternatives) (hn : n < unions)
    (hw : r.validate n d v = .ok w) : ByKey r unions key v w

theorem byKey_of_validate {v : Value} (h : r.validate unions (.named key) v = .ok w) : r.ByKey unions key v w := by
  cases hfind : r.find? key with
  | none =>
    rw [validate, hfind] at h
    cases h
  | some definition =>
    cases definition with
    | basic b =>
      obtain ⟨rfl, htakes⟩ := Basic.validate_eq_ok_iff.mp (validate_named_basic hfind v ▸ h)
      exact .basic hfind htakes
    | enumeration e =>
      obtain ⟨rfl, s, hs, rfl⟩ := Enumeration.validate_eq_ok_iff.mp (validate_named_enumeration hfind v ▸ h)
      exact .enumeration hfind hs
    | model m =>
      obtain ⟨hf, ⟨entries, rfl⟩ | ⟨rfl, serial, name, attributes, held, rfl⟩⟩ := validate_model_eq_ok hfind h
      · obtain ⟨-, parts, hparts, rfl⟩ := (validate_dict_eq_ok_iff hfind hf).mp h
        exact .record hfind hf hparts
      · exact .same hfind hf serial name attributes held
    | union u =>
      rcases validate_union_eq_ok hfind h with ⟨hv, rfl⟩ | ⟨hv, n, a, rfl, ha, hok⟩
      · exact .member hfind hv
      · exact .alternative hfind hv ha (Nat.lt_succ_self n) hok

/-- Claims about conversions go down the layers, then into unions, and then into the value. -/
theorem conversion_induction (bound : Nat) {P : Nat → Descriptor → Value → Prop}
    (step : ∀ unions d v, (∀ inner, d = .maybeNull inner → P unions inner v) →
      (∀ n a, n < unions → P n a v) → (∀ e x, sizeOf x < sizeOf v → P bound e x) → P unions d v)
    (unions : Nat) (d : Descriptor) (v : Value) : P unions d v :=
  step unions d v
    (fun inner _ => conversion_induction bound step unions inner v)
    (fun n a _ => conversion_induction bound step n a v)
    (fun e x _ => conversion_induction bound step bound e x)
termination_by (sizeOf v, unions, d)
decreasing_by all_goals subst_vars; simp_all [Prod.lex_def]

end Registry

end CheckedModels
