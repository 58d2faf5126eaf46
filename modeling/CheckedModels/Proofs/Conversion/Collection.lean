import CheckedModels.Proofs.Conversion.Record

/-! Collections of instances, from lists and from dictionaries. -/
namespace CheckedModels

/-- What an instance holds under the attribute of its model's identifier. -/
def Model.identity? (m : Model) (v : Value) : Option Value :=
  m.identifierName?.bind v.attribute?

namespace Collection

variable {own : Option Text} {key : Text}

theorem entryKey_none_iff : entryKey own none = .ok key ↔ own = some key := by
  cases own <;> simp [entryKey, Outcome.reject]

/-- An own key is what counts, and null as the given key is as good as none. -/
theorem entryKey_some_iff {given : Scalar} : entryKey own (some given) = .ok key ↔
    (given = .str key ∨ own.isSome ∧ given = .null) ∧ ∀ id, own = some id → id = key := by
  cases own with
  | none => cases given <;> simp [entryKey, Outcome.reject]
  | some id =>
    cases given with
    | null => simp [entryKey]
    | bool | int | float => simp [entryKey, Outcome.reject]
    | str k =>
      simp only [entryKey]
      split <;> simp_all [Outcome.reject, eq_comm]

end Collection

namespace Registry

variable {r : Registry} {d : Descriptor} {key : String} {m : Model} {v w x : Value}

/-- To be valid and to have this made of it is to be accepted as it stands. -/
theorem check_eq_ok_iff (hends : r.nameEnds d = true) :
    r.check d v = .ok w ↔ r.isValid d v = .ok true ∧ r.create d v = .ok w := by
  rw [isValid_iff_accepts hends]
  constructor
  · intro h
    exact ⟨⟨w, h⟩, create_of_check hends h⟩
  · rintro ⟨⟨w', hw'⟩, hcreate⟩
    rw [create_of_check hends hw'] at hcreate
    exact Except.ok.inj hcreate ▸ hw'

theorem nameEnds_map (hm : r.find? key = some (.model m)) : r.nameEnds (.map (.named key)) = true := by
  have hmodel : r.nameEnds (.named key) = true := nameEnds_of_record (record?_named hm)
  exact hmodel

/-- The key that an instance goes under by itself is what it holds for its model's identifier. -/
theorem identity?_iff {t : Text} :
    m.identifierName?.bind (Collection.identifierOf? · x) = some t ↔ m.identity? x = some (.scalar (.str t)) := by
  unfold Model.identity?
  cases m.identifierName? with
  | none => simp
  | some name =>
    simp only [Option.bind_some, Collection.identifierOf?]
    split <;> simp_all

theorem identity?_record {properties : Entries Value} (same : properties.keys = m.properties.keys)
    (distinct : m.properties.keys.Nodup) {id : String} (hid : m.identifier? = some id) {t : Text}
    (h : properties.lookup id = some (.scalar (.str t))) (serial : Option Nat) (key : String) :
    m.identity? (.record serial key m.name properties) = some (.scalar (.str t)) := by
  refine identity?_iff.mp ?_
  rw [Model.identifierName?, hid]
  exact identifierOf?_record same distinct h serial key

theorem Makes.exists_identity (hm : r.find? key = some (.model m)) (distinct : m.properties.keys.Nodup)
    {id : String} (hid : m.identifier? = some id) (hx : r.Makes (.named key) x) :
    ∃ t : Text, m.identity? x = some (.scalar (.str t)) := by
  obtain ⟨serial, _, t, rfl, hsame, hlookup⟩ := hx.exists_text hm distinct hid
  exact ⟨t, identity?_record hsame distinct hid hlookup serial key⟩

/-- The item makes an instance, which has the key for its identity. -/
def Indexes (r : Registry) (key : String) (m : Model) (v : Value) (e : Text × Value) : Prop :=
  r.check (.named key) v = .ok e.2 ∧ m.identity? e.2 = some (.scalar (.str e.1))

theorem enters_item_iff {e : Text × Value} :
    Collection.Enters m.identifierName? (none, r.check (.named key) x) e ↔ r.Indexes key m x e := by
  refine and_congr_right fun _ => ?_
  rw [Collection.entryKey_none_iff]
  exact identity?_iff

/-- The key that an item is given is kept, and agrees with the identity of what the item makes. Null as
the key stands for that identity. -/
theorem enters_entry_iff (hm : r.find? key = some (.model m)) (distinct : m.properties.keys.Nodup)
    (hx : r.Makes (.basic .frozen) x) {given : Scalar} {e : Text × Value} :
    Collection.Enters m.identifierName? (some given, r.check (.named key) x) e ↔
      r.check (.named key) x = .ok e.2 ∧ (given = .str e.1 ∨ m.identifier?.isSome ∧ given = .null) ∧
        (m.identifier?.isSome → m.identity? e.2 = some (.scalar (.str e.1))) := by
  refine and_congr_right fun hcheck => ?_
  have hmade : r.Makes (.named key) e.2 := makes_of_validate hx hcheck
  rw [Collection.entryKey_some_iff]
  cases hid : m.identifier? with
  | none => simp [Model.identifierName?, hid]
  | some id =>
    obtain ⟨t, hidentity⟩ := hmade.exists_identity hm distinct hid
    rw [identity?_iff.mpr hidentity, hidentity]
    simp

theorem Makes.check_instance (hm : r.find? key = some (.model m)) (hx : r.Makes (.named key) x) :
    r.check (.named key) x = .ok x := by
  obtain ⟨hf, serial, properties, rfl, -⟩ := hx.exists_instance hm
  exact validate_instance hm hf serial m.name _ _

/-- Values whose instances have the identities that the values are given under make one collection,
whether they come under these keys or as a list. -/
theorem create_both (hm : r.find? key = some (.model m)) {id : String} (hid : m.identifier? = some id)
    {given made : List (Text × Value)} (hnodup : (given.map Prod.fst).Nodup)
    (h : List.Forall₂ (fun e f => e.1 = f.1 ∧ r.check (.named key) e.2 = .ok f.2 ∧
      m.identifierName?.bind (Collection.identifierOf? · f.2) = some f.1) given made) :
    r.create (.map (.named key)) (Collection.toDict given) = .ok (Collection.toDict made) ∧
      r.create (.map (.named key)) (.list (given.map Prod.snd)) = .ok (Collection.toDict made) := by
  have hkeys : made.map Prod.fst = given.map Prod.fst :=
    Entries.map_eq_of_forall₂ (h.imp fun _ _ h => h.1.symm)
  constructor
  · refine create_eq_ok_iff.mpr ⟨nameEnds_map hm, (validate_map_eq_ok_iff hm).mpr ?_⟩
    refine ⟨made, hkeys ▸ hnodup, List.forall₂_map_left_iff.mpr (h.imp fun e f hef => ?_), rfl⟩
    obtain ⟨hkey, hcheck, hown⟩ := hef
    have hagrees : ∀ id, m.identifierName?.bind (Collection.identifierOf? · f.2) = some id → id = f.1 := by
      intro id hid
      exact Option.some.inj (hid.symm.trans hown)
    exact ⟨hcheck, Collection.entryKey_some_iff.mpr ⟨.inl (by rw [hkey]), hagrees⟩⟩
  · refine create_eq_ok_iff.mpr ⟨nameEnds_map hm, (validate_items_eq_ok_iff hm hid rfl).mpr ?_⟩
    refine ⟨made, hkeys ▸ hnodup, List.forall₂_map_left_iff.mpr (h.imp fun e f hef => ?_), rfl⟩
    obtain ⟨-, hcheck, hown⟩ := hef
    exact ⟨hcheck, Collection.entryKey_none_iff.mpr hown⟩

/-- A collection is made again from itself and from its instances. -/
theorem create_itself (hm : r.find? key = some (.model m)) {id : String} (hid : m.identifier? = some id)
    {made : List (Text × Value)} (hnodup : (made.map Prod.fst).Nodup)
    (hmade : ∀ e ∈ made, r.Makes (.named key) e.2)
    (hown : ∀ e ∈ made, m.identifierName?.bind (Collection.identifierOf? · e.2) = some e.1) :
    r.create (.map (.named key)) (Collection.toDict made) = .ok (Collection.toDict made) ∧
      r.create (.map (.named key)) (.list (made.map Prod.snd)) = .ok (Collection.toDict made) := by
  apply create_both hm hid hnodup
  apply List.forall₂_same.mpr
  intro e he
  exact ⟨rfl, (hmade e he).check_instance hm, hown e he⟩

/-- Snapshots of instances make instances with the same identities. -/
theorem exists_create_snapshots (hm : r.find? key = some (.model m)) {id : String}
    (hid : m.identifier? = some id) (hd : r.Loadable (.named key)) {made : List (Text × Value)}
    (hnodup : (made.map Prod.fst).Nodup) (hmade : ∀ e ∈ made, r.Makes (.named key) e.2)
    (hown : ∀ e ∈ made, m.identifierName?.bind (Collection.identifierOf? · e.2) = some e.1) :
    ∃ again : List (Text × Value), again.map Prod.fst = made.map Prod.fst ∧
      r.create (.map (.named key)) (Collection.toDict made).snapshot = .ok (Collection.toDict again) ∧
      r.create (.map (.named key)) (.list (made.map fun e => e.2.snapshot)) =
        .ok (Collection.toDict again) := by
  obtain ⟨-, distinct⟩ := hd.model hm
  let given : List (Text × Value) := made.map fun e => (e.1, e.2.snapshot)
  have hkeys : given.map Prod.fst = made.map Prod.fst := by simp [given]
  have hvalues : given.map Prod.snd = made.map fun e => e.2.snapshot := by simp [given]
  have hsnapshot : (Collection.toDict made).snapshot = Collection.toDict given := by
    simp [Collection.toDict, Value.snapshot_dict, given]
  have hitem : ∀ e ∈ made, ∃ f : Text × Value, e.1 = f.1 ∧ r.check (.named key) e.2.snapshot = .ok f.2 ∧
      m.identifierName?.bind (Collection.identifierOf? · f.2) = some f.1 := by
    intro e he
    obtain ⟨y, hy, -⟩ := (hmade e he).reload_of_nests hd hd.nests
    have hsame := own_reload hm distinct (hmade e he) hy
    exact ⟨(e.1, y), rfl, hy, hsame.trans (hown e he)⟩
  obtain ⟨again, hagain⟩ := Entries.exists_forall₂ hitem
  have hboth := create_both hm hid (hkeys ▸ hnodup) (List.forall₂_map_left_iff.mpr hagain)
  rw [hsnapshot, ← hvalues]
  exact ⟨again, Entries.map_eq_of_forall₂ (hagain.imp fun _ _ h => h.1.symm), hboth⟩

theorem create_items_eq_ok_iff (hm : r.find? key = some (.model m)) {id : String}
    (hid : m.identifier? = some id) {items : List Value} :
    r.create (.map (.named key)) (.list items) = .ok w ↔ ∃ made : List (Text × Value),
      (made.map Prod.fst).Nodup ∧ List.Forall₂ (r.Indexes key m) items made ∧
        w = Collection.toDict made := by
  have henters : ∀ made, List.Forall₂ (fun v x =>
      Collection.Enters m.identifierName? (none, r.check (.named key) v) x) items made ↔
        List.Forall₂ (r.Indexes key m) items made := fun made =>
    Entries.forall₂_congr_left fun _ _ _ => enters_item_iff
  rw [create_eq_ok_iff, and_iff_right (nameEnds_map hm)]
  simp only [← henters]
  exact validate_items_eq_ok_iff (v := .list items) hm hid rfl

namespace Indexes

variable {items : List Value} {made : List (Text × Value)}

theorem map_identity (h : List.Forall₂ (r.Indexes key m) items made) :
    (made.map Prod.snd).map m.identity? = (made.map Prod.fst).map fun t => some (.scalar (.str t)) := by
  rw [List.map_map, List.map_map]
  apply List.map_congr_left
  intro e he
  obtain ⟨v, -, -, hidentity⟩ := Entries.exists_rel_of_mem h he
  exact hidentity

theorem nodup_iff (h : List.Forall₂ (r.Indexes key m) items made) :
    ((made.map Prod.snd).map m.identity?).Nodup ↔ (made.map Prod.fst).Nodup := by
  rw [map_identity h]
  constructor
  · intro hnodup
    exact hnodup.of_map
  · intro hnodup
    exact hnodup.map fun t t' heq => by simpa using heq

theorem create_instances (hm : r.find? key = some (.model m)) (h : List.Forall₂ (r.Indexes key m) items made) :
    List.Forall₂ (fun v x => r.create (.named key) v = .ok x) items (made.map Prod.snd) :=
  List.forall₂_map_right_iff.mpr (h.imp fun _ _ h => create_of_check (nameEnds_of_record (record?_named hm)) h.1)

end Indexes

/-- A list makes a collection if each item makes an instance and no two of these have one identity. -/
theorem exists_create_items_iff (hm : r.find? key = some (.model m)) (distinct : m.properties.keys.Nodup)
    {id : String} (hid : m.identifier? = some id) {items : List Value}
    (hv : r.Makes (.basic .frozen) (.list items)) :
    (∃ w, r.create (.map (.named key)) (.list items) = .ok w) ↔
      (∀ v ∈ items, r.isValid (.named key) v = .ok true) ∧
      ∀ made, List.Forall₂ (fun v x => r.create (.named key) v = .ok x) items made →
        (made.map m.identity?).Nodup := by
  have hcreate (w : Value) : r.create (.map (.named key)) (.list items) = .ok w ↔
      ∃ made : List (Text × Value), (made.map Prod.fst).Nodup ∧ List.Forall₂ (r.Indexes key m) items made ∧
        w = Collection.toDict made := create_items_eq_ok_iff hm hid
  have hends : r.nameEnds (.named key) = true := nameEnds_of_record (record?_named hm)
  constructor
  · rintro ⟨w, hw⟩
    obtain ⟨made, hnodup, hmade, -⟩ := (hcreate w).mp hw
    refine ⟨fun v hmem => ?_, fun others hothers => ?_⟩
    · obtain ⟨e, -, he, -⟩ := Entries.exists_rel_of_mem hmade.flip hmem
      exact (isValid_iff_accepts hends).mpr ⟨e.2, he⟩
    · have hunique : Relator.RightUnique fun v x => r.create (.named key) v = .ok x :=
        fun _ _ _ h h' => Except.ok.inj (h.symm.trans h')
      obtain rfl := List.right_unique_forall₂' hunique hothers (Indexes.create_instances hm hmade)
      exact (Indexes.nodup_iff hmade).mpr hnodup
  · rintro ⟨hvalid, hdistinct⟩
    have hitem : ∀ v ∈ items, ∃ e : Text × Value, r.Indexes key m v e := by
      intro v hmem
      obtain ⟨x, hx⟩ := (isValid_iff_accepts hends).mp (hvalid v hmem)
      have hmade : r.Makes (.named key) x := makes_of_validate (hv.of_item rfl hmem) hx
      obtain ⟨t, ht⟩ := hmade.exists_identity hm distinct hid
      exact ⟨(t, x), hx, ht⟩
    obtain ⟨made, hmade⟩ := Entries.exists_forall₂ hitem
    have hnodup := (Indexes.nodup_iff hmade).mp (hdistinct _ (Indexes.create_instances hm hmade))
    exact ⟨_, (hcreate _).mpr ⟨made, hnodup, hmade, rfl⟩⟩

/-- A list makes a collection exactly if each item makes an instance and no two of these have one
identity. The instances are in the order of the items, each under its identity, and the collection is
made again from itself and from its instances. From its snapshot, or from the snapshots of its instances,
a collection with the same keys is made. -/
theorem create_indexed (hm : r.find? key = some (.model m)) (distinct : m.properties.keys.Nodup) {id : String}
    (hid : m.identifier? = some id) {items : List Value} (hv : r.Given (.list items)) :
    ((∃ w, r.create (.map (.named key)) (.list items) = .ok w) ↔
      (∀ v ∈ items, r.isValid (.named key) v = .ok true) ∧
      ∀ made, List.Forall₂ (fun v x => r.create (.named key) v = .ok x) items made →
        (made.map m.identity?).Nodup) ∧
    ∀ w, r.create (.map (.named key)) (.list items) = .ok w → ∃ made : List (Text × Value),
      w = Collection.toDict made ∧ List.Forall₂ (fun v e => r.create (.named key) v = .ok e.2 ∧
        m.identity? e.2 = some (.scalar (.str e.1))) items made ∧
      r.create (.map (.named key)) w = .ok w ∧
      r.create (.map (.named key)) (.list (made.map Prod.snd)) = .ok w ∧
      (r.Loadable (.named key) → ∃ again : List (Text × Value),
        again.map Prod.fst = made.map Prod.fst ∧
        r.create (.map (.named key)) w.snapshot = .ok (Collection.toDict again) ∧
        r.create (.map (.named key)) (.list (made.map fun e => e.2.snapshot)) =
          .ok (Collection.toDict again)) := by
  have hraw := hv.opaque_makes
  refine ⟨exists_create_items_iff hm distinct hid hraw, fun w hw => ?_⟩
  obtain ⟨made, hnodup, hmade, rfl⟩ := (create_items_eq_ok_iff hm hid).mp hw
  have hmakes : ∀ e ∈ made, r.Makes (.named key) e.2 := by
    intro e he
    obtain ⟨v, hmem, hcheck, -⟩ := Entries.exists_rel_of_mem hmade he
    exact makes_of_validate (hraw.of_item rfl hmem) hcheck
  have hown : ∀ e ∈ made, m.identifierName?.bind (Collection.identifierOf? · e.2) = some e.1 := by
    intro e he
    obtain ⟨v, -, -, hidentity⟩ := Entries.exists_rel_of_mem hmade he
    exact identity?_iff.mpr hidentity
  obtain ⟨hdict, hlist⟩ := create_itself hm hid hnodup hmakes hown
  have hends : r.nameEnds (.named key) = true := nameEnds_of_record (record?_named hm)
  refine ⟨made, rfl, hmade.imp fun _ _ h => ⟨create_of_check hends h.1, h.2⟩, hdict, hlist, fun hd => ?_⟩
  exact exists_create_snapshots hm hid hd hnodup hmakes hown

/-- A record of nothing but an identifier has the text that it is given for its identity. -/
theorem check_sole_identifier (hm : r.find? key = some (.model m)) (hf : m.fault? = none) {id : String}
    (hp : m.properties = [(id, .identifier)]) (t : Text) :
    let made : Value := .record none key m.name [(id, .scalar (.str t))]
    r.check (.named key) (.dict [(.str (.whole id), .scalar (.str t))]) = .ok made ∧
      m.identity? made = some (.scalar (.str t)) := by
  intro made
  have hbuild : made = m.build key [.scalar (.str t)] := by simp [made, Model.build, hp, Entries.keys]
  have hcheck : r.check (.named key) (.dict [(.str (.whole id), .scalar (.str t))]) = .ok made := by
    apply (validate_dict_eq_ok_iff hm hf).mpr
    refine ⟨by simp [hp, Entries.keys], [.scalar (.str t)], ?_, hbuild⟩
    have hpart : r.part [(.str (.whole id), .scalar (.str t))] (id, .identifier) = .ok (.scalar (.str t)) := by
      simp [part, Value.under?, embed, record?, check, validate_basic, Basic.validate]
    rw [hp]
    exact .cons hpart .nil
  have hid : m.identifier? = some id := by
    simp [Model.identifier?, Model.identifierKeys, hp, Descriptor.isIdentifier]
  refine ⟨hcheck, ?_⟩
  exact identity?_record (by simp [hp, Entries.keys]) (by simp [hp, Entries.keys]) hid (by simp) none key

/-- An identifier that instances hold under another attribute. -/
theorem create_indexed_renamed :
    let m : Model := ⟨"Term", [("class", .identifier)], true⟩
    let r : Registry := ⟨[("Term", .model m)]⟩
    let item (t : String) : Value := .dict [(.str (.whole "class"), .str t)]
    let items : List Value := [item "b", item "a"]
    r.find? "Term" = some (.model m) ∧ m.properties.keys.Nodup ∧ m.identifier? = some "class" ∧
      r.Given (.list items) ∧ r.Loadable (.named "Term") ∧ ∃ made : List (Text × Value),
        made.map Prod.fst = [.whole "b", .whole "a"] ∧
        r.create (.map (.named "Term")) (.list items) = .ok (Collection.toDict made) ∧
        ∃ again : List (Text × Value), again.map Prod.fst = made.map Prod.fst ∧
          r.create (.map (.named "Term")) (Collection.toDict made).snapshot =
            .ok (Collection.toDict again) := by
  intro m r item items
  have hm : r.find? "Term" = some (.model m) := rfl
  have hid : m.identifier? = some "class" := rfl
  have hdistinct : m.properties.keys.Nodup := by decide
  have hf : m.fault? = none := by simp [m, Model.fault?]
  have hgiven : r.Given (.list items) := by
    refine .list fun v hv => ?_
    obtain ⟨t, rfl⟩ : ∃ t, v = item t := by
      rcases List.mem_cons.mp hv with rfl | hv
      · exact ⟨"b", rfl⟩
      · exact ⟨"a", List.mem_singleton.mp hv⟩
    exact .dict (by simpa using .scalar _)
  have hcomplete : r.Complete (.named "Term") := by
    refine .of_closed (S := fun d => d = .named "Term" ∨ d = .identifier) ?_ ?_ (.inl rfl)
    · rintro d (rfl | rfl)
      · exact .model hm rfl hdistinct
      · exact .basic _
    · rintro d e (rfl | rfl) hpart
      · cases hpart with
        | property h hp =>
          cases hm.symm.trans h
          exact .inr (congrArg Prod.snd (List.mem_singleton.mp hp))
        | alternative h _ => cases hm.symm.trans h
      · cases hpart
  let term (t : String) : Value := .record none "Term" "Term" [("class", .str t)]
  have hcheck (t : String) : r.check (.named "Term") (item t) = .ok (term t) :=
    (check_sole_identifier hm hf rfl (.whole t)).1
  have hidentity (t : String) : m.identity? (term t) = some (.str t) :=
    (check_sole_identifier hm hf rfl (.whole t)).2
  have hcreated (t : String) : r.create (.named "Term") (item t) = .ok (term t) := create_of_check rfl (hcheck t)
  obtain ⟨haccepts, hmade⟩ := create_indexed hm hdistinct hid hgiven
  obtain ⟨w, hw⟩ : ∃ w, r.create (.map (.named "Term")) (.list items) = .ok w := by
    have hvalid (t : String) : r.isValid (.named "Term") (item t) = .ok true :=
      (isValid_iff_accepts rfl).mpr ⟨_, hcheck t⟩
    refine haccepts.mpr ⟨by simp [items, hvalid], fun others hothers => ?_⟩
    obtain rfl : others = [term "b", term "a"] := by
      simpa [items, List.forall₂_cons_left_iff, hcreated, eq_comm] using hothers
    simp [hidentity]
  obtain ⟨made, rfl, hall, -, -, hagain⟩ := hmade w hw
  obtain ⟨again, hkeys, hsnapshot, -⟩ := hagain hcomplete.loadable
  have hnames : made.map Prod.fst = [.whole "b", .whole "a"] := by
    obtain ⟨⟨t, x⟩, rest, ⟨hx, ht⟩, hrest, rfl⟩ := List.forall₂_cons_left_iff.mp hall
    obtain ⟨⟨t', x'⟩, none, ⟨hx', ht'⟩, hnone, rfl⟩ := List.forall₂_cons_left_iff.mp hrest
    obtain rfl := List.forall₂_nil_left_iff.mp hnone
    obtain rfl := Except.ok.inj ((hcreated _).symm.trans hx)
    obtain rfl := Except.ok.inj ((hcreated _).symm.trans hx')
    simp_all
  exact ⟨hm, hdistinct, hid, hgiven, hcomplete.loadable, made, hnames, hw, again, hkeys, hsnapshot⟩

/-- A record of an identifier and one other property comes to what comes of that property. -/
theorem check_identified (hm : r.find? key = some (.model m)) (hf : m.fault? = none) {id name : String}
    (hp : m.properties = [(id, .identifier), (name, d)]) (hne : id ≠ name) (hd : r.record? d = none) (t : Text)
    (x : Value) :
    r.check (.named key) (.dict [(.str (.whole id), .scalar (.str t)), (.str (.whole name), x)]) =
      m.build key <$> Outcome.gather [(.key id, .ok (.scalar (.str t))), (.key name, r.check d x)] := by
  let entries : List (Scalar × Value) := [(.str (.whole id), .scalar (.str t)), (.str (.whole name), x)]
  have hid : r.part entries (id, .identifier) = .ok (.scalar (.str t)) := by
    simp [part, entries, Value.under?, embed, record?, check, validate_basic, Basic.validate]
  have hother : r.part entries (name, d) = r.check d x := by
    simp [part, entries, Value.under?, hne, embed, hd]
  have hstrays : m.toClass.strays entries = [] :=
    strays_eq_nil_iff.mpr (by simp [entries, hp, Entries.keys])
  have hwhole : ∀ parts, RecordClass.settle entries parts = parts := by
    intro parts
    unfold RecordClass.settle
    split <;> simp [entries, Outcome.broken, Scalar.isBroken]
  have hdict := @validate_dict _ r.entries.length _ _ hm hf entries
  rw [hstrays, hwhole, List.append_nil, hp, List.map_cons, List.map_cons, List.map_nil, hid, hother] at hdict
  refine hdict.trans ?_
  generalize r.check d x = outcome
  rcases outcome with (issues | fault) | v
  · rfl
  · rfl
  · exact congrArg Except.ok (m.build_toClass (by simp [hp]) key)

/-- A collection of one item fails as the item does. -/
theorem check_sole_entry (hm : r.find? key = some (.model m)) (given : Scalar) {x : Value} {e : Failure}
    (h : r.check (.named key) x = .error e) :
    r.check (.map (.named key)) (.dict [(given, x)]) = r.embed (.named key) (.error e) := by
  rw [check, validate_map hm, List.map_singleton, h]
  unfold embed Outcome.embed
  rw [record?_named hm]
  rcases e with issues | fault
  · rfl
  · cases fault <;> rfl

/-- A union takes an instance of an alternative without a look at the others, but for its snapshot it
comes to a model of whose name no class can be made, or, where the union is its own alternative, to no
end. The collection of such instances then does not take its own snapshot. -/
theorem create_indexed_unloadable :
    let r (alternatives : List Descriptor) : Registry :=
      ⟨[("A", .model ⟨"A", [("x", .maybeNull .string)], true⟩), ("B", .model ⟨"B\x00", [], true⟩),
        ("U", .union { alternatives := alternatives, isSealed := true }),
        ("M", .model ⟨"M", [("id", .identifier), ("u", .named "U")], true⟩)]⟩
    let a : Value := .record none "A" "A" [("x", .null)]
    let m : Value := .record none "M" "M" [("id", .str "1"), ("u", a)]
    let w : Value := Collection.toDict [(.whole "1", m)]
    (∀ alternatives, (r alternatives).AllSealed) ∧
    (((r [.named "A", .named "B"]).Given (.list [m]) ∧
        (r [.named "A", .named "B"]).create (.map (.named "M")) (.list [m]) = .ok w) ∧
      (r [.named "A", .named "B"]).isValid (.map (.named "M")) w.snapshot = .ok false) ∧
    ((r [.named "U", .named "A"]).Given (.list [m]) ∧
        (r [.named "U", .named "A"]).create (.map (.named "M")) (.list [m]) = .ok w) ∧
      (r [.named "U", .named "A"]).isValid (.map (.named "M")) w.snapshot = .error .endless := by
  intro r a m w
  have hA (alternatives : List Descriptor) :
      (r alternatives).find? "A" = some (.model ⟨"A", [("x", .maybeNull .string)], true⟩) := rfl
  have hM (alternatives : List Descriptor) : (r alternatives).find? "M" =
      some (.model ⟨"M", [("id", .identifier), ("u", .named "U")], true⟩) := rfl
  have hU (alternatives : List Descriptor) : (r alternatives).find? "U" =
      some (.union { alternatives := alternatives, isSealed := true }) := rfl
  have hfaultA : (⟨"A", [("x", .maybeNull .string)], true⟩ : Model).fault? = none := by simp [Model.fault?]
  have hfaultM : (⟨"M", [("id", .identifier), ("u", .named "U")], true⟩ : Model).fault? = none := by
    simp [Model.fault?]
  have hfaultB : (⟨"B\x00", [], true⟩ : Model).fault? = some .nullInName := by simp [Model.fault?]
  let source (x : Value) : List (Scalar × Value) := [(.str (.whole "id"), .str "1"), (.str (.whole "u"), x)]
  -- What the record comes to is up to the union, as what the collection comes to is up to the record.
  have hrecord (alternatives : List Descriptor) (x : Value) :=
    check_identified (hM alternatives) hfaultM rfl (by simp) rfl (.whole "1") x
  have hmade (alternatives : List Descriptor) (h : (r alternatives).isInstanceOf a alternatives = .ok true) :
      (r alternatives).Given (.list [m]) ∧ (r alternatives).create (.map (.named "M")) (.list [m]) = .ok w := by
    have ha : (r alternatives).check (.named "A") (.dict []) = .ok a :=
      (validate_dict_eq_ok_iff (hA alternatives) hfaultA).mpr ⟨by simp, [.null], .cons rfl .nil, rfl⟩
    have hm : (r alternatives).check (.named "M") (.dict (source a)) = .ok m := by
      rw [hrecord alternatives a, check_union_instance (hU alternatives) h]
      rfl
    have hsource : (r alternatives).Given (.dict (source a)) :=
      .dict (by simpa [source] using ⟨.scalar _, .created (.dict (by simp)) (create_of_check rfl ha)⟩)
    have hcreated : (r alternatives).create (.named "M") (.dict (source a)) = .ok m := create_of_check rfl hm
    have hself : (r alternatives).check (.named "M") m = .ok m :=
      (makes_of_create hsource.opaque_makes hcreated).check_instance (hM alternatives)
    refine ⟨.list (by simpa using .created hsource hcreated), ?_⟩
    refine (create_items_eq_ok_iff (hM alternatives) rfl).mpr ⟨[(.whole "1", m)], by simp, ?_, rfl⟩
    exact .cons ⟨hself, identity?_record rfl (by decide) rfl rfl none "M"⟩ .nil
  have hsealed (alternatives : List Descriptor) : (r alternatives).AllSealed := by
    intro key model hfind
    have hmem := Entries.mem_of_lookup hfind
    simp only [r, List.mem_cons, Prod.mk.injEq, List.not_mem_nil, or_false] at hmem
    rcases hmem with ⟨-, h⟩ | ⟨-, h⟩ | ⟨-, h⟩ | ⟨-, h⟩ <;> cases h <;> rfl
  have hsnapshot : w.snapshot = .dict [(.str (.whole "1"), .dict (source a.snapshot))] := by
    have hm : m.snapshot = .dict (source a.snapshot) := Value.snapshot_record (by decide)
    have hw : w.snapshot = .dict [(.str (.whole "1"), m.snapshot)] := Value.snapshot_dict _
    rw [hw, hm]
  have hplain : a.snapshot = .dict [(.str (.whole "x"), .null)] := Value.snapshot_record (by decide)
  refine ⟨hsealed, ⟨hmade _ ?_, ?_⟩, hmade _ ?_, ?_⟩
  · simp [isInstanceOf, record?_named (hA _), hfaultA, a, Value.record]
  · have hB : (r [.named "A", .named "B"]).record? (.named "B") = some ⟨"B\x00", [], true⟩ := rfl
    have hinstance : (r [.named "A", .named "B"]).isInstanceOf a.snapshot [.named "A", .named "B"] =
        Outcome.reject .nullInName := by
      simp [isInstanceOf, record?_named (hA _), hfaultA, hB, hfaultB, hplain]
    have hunion : (r [.named "A", .named "B"]).check (.named "U") a.snapshot = Outcome.reject .nullInName :=
      check_union_error (hU _) hinstance
    have hitem := hrecord [.named "A", .named "B"] a.snapshot
    rw [hunion] at hitem
    rw [hsnapshot]
    exact isValid_rejected rfl (check_sole_entry (hM _) _ hitem)
  · have hself : (r [.named "U", .named "A"]).record? (.named "U") = none := rfl
    simp [isInstanceOf, hself, record?_named (hA _), hfaultA, a, Value.record]
  · have hself : (r [.named "U", .named "A"]).record? (.named "U") = none := rfl
    have hinstance : (r [.named "U", .named "A"]).isInstanceOf a.snapshot [.named "U", .named "A"] = .ok false := by
      simp [isInstanceOf, hself, record?_named (hA _), hfaultA, hplain]
    have hunion : (r [.named "U", .named "A"]).check (.named "U") a.snapshot = Outcome.broken .endless := by
      exact check_union_endless (hU _) rfl hinstance (by decide +kernel)
    have hitem := hrecord [.named "U", .named "A"] a.snapshot
    rw [hunion] at hitem
    rw [hsnapshot]
    exact isValid_broken rfl (check_sole_entry (hM _) _ hitem)

/-- A dictionary makes a collection exactly if each item makes an instance, the keys are text, and no two
of them are alike. Where the model has an identifier each key is the identity of what its item makes, and
a null key stands for that identity. The collection has the keys in their order. -/
theorem create_keyed (hm : r.find? key = some (.model m)) (distinct : m.properties.keys.Nodup)
    {entries : List (Scalar × Value)} (hv : r.Given (.dict entries)) (w : Value) :
    r.create (.map (.named key)) (.dict entries) = .ok w ↔ ∃ made : List (Text × Value),
      w = Collection.toDict made ∧ (made.map Prod.fst).Nodup ∧
      List.Forall₂ (fun e x => (e.1 = .str x.1 ∨ m.identifier?.isSome ∧ e.1 = .null) ∧
        r.isValid (.named key) e.2 = .ok true ∧ r.create (.named key) e.2 = .ok x.2 ∧
        (m.identifier?.isSome → m.identity? x.2 = some (.scalar (.str x.1)))) entries made := by
  have henters : ∀ made : List (Text × Value),
      List.Forall₂ (fun e x => Collection.Enters m.identifierName? (some e.1, r.check (.named key) e.2) x)
        entries made ↔
      List.Forall₂ (fun e x => (e.1 = .str x.1 ∨ m.identifier?.isSome ∧ e.1 = .null) ∧
        r.isValid (.named key) e.2 = .ok true ∧ r.create (.named key) e.2 = .ok x.2 ∧
        (m.identifier?.isSome → m.identity? x.2 = some (.scalar (.str x.1)))) entries made := by
    intro made
    refine Entries.forall₂_congr_left fun e hmem x => ?_
    have hraw : r.Makes (.basic .frozen) e.2 := hv.opaque_makes.of_entry hmem
    rw [enters_entry_iff hm distinct hraw, check_eq_ok_iff (nameEnds_of_record (record?_named hm))]
    tauto
  simp only [← henters]
  rw [create_eq_ok_iff, and_iff_right (nameEnds_map hm)]
  refine (validate_map_eq_ok_iff hm).trans (exists_congr fun made => ?_)
  tauto

theorem create_keyed_term :
    let m : Model := ⟨"Term", [("class", .identifier)], true⟩
    let r : Registry := ⟨[("Term", .model m)]⟩
    let item (t : String) : Value := .dict [(.str (.whole "class"), .str t)]
    let entries : List (Scalar × Value) := [(.str (.whole "b"), item "b"), (.str (.whole "a"), item "a")]
    r.find? "Term" = some (.model m) ∧ m.properties.keys.Nodup ∧ r.Given (.dict entries) ∧
      ∃ made : List (Text × Value), made.map Prod.fst = [.whole "b", .whole "a"] ∧
        r.create (.map (.named "Term")) (.dict entries) = .ok (Collection.toDict made) := by
  intro m r item entries
  have hm : r.find? "Term" = some (.model m) := rfl
  have hdistinct : m.properties.keys.Nodup := by decide
  have hf : m.fault? = none := by simp [m, Model.fault?]
  have hgiven : r.Given (.dict entries) := by
    refine .dict fun e he => ?_
    obtain ⟨t, ht⟩ : ∃ t, e.2 = item t := by
      rcases List.mem_cons.mp he with rfl | he
      · exact ⟨"b", rfl⟩
      · exact ⟨"a", congrArg Prod.snd (List.mem_singleton.mp he)⟩
    rw [ht]
    exact .dict (by simpa using .scalar _)
  let term (t : String) : Value := .record none "Term" "Term" [("class", .str t)]
  have hterm (t : String) : r.isValid (.named "Term") (item t) = .ok true ∧
      r.create (.named "Term") (item t) = .ok (term t) ∧ m.identity? (term t) = some (.str t) := by
    obtain ⟨hcheck, hidentity⟩ := check_sole_identifier hm hf rfl (.whole t)
    exact ⟨(isValid_iff_accepts rfl).mpr ⟨_, hcheck⟩, create_of_check rfl hcheck, hidentity⟩
  have hcreate := create_keyed hm hdistinct hgiven
  refine ⟨hm, hdistinct, hgiven, [(.whole "b", term "b"), (.whole "a", term "a")], rfl, ?_⟩
  refine (hcreate _).mpr ⟨_, rfl, by simp, .cons ⟨.inl rfl, ?_⟩ (.cons ⟨.inl rfl, ?_⟩ .nil)⟩
  · exact ⟨(hterm "b").1, (hterm "b").2.1, fun _ => (hterm "b").2.2⟩
  · exact ⟨(hterm "a").1, (hterm "a").2.1, fun _ => (hterm "a").2.2⟩

/-- Null is taken for a key, and stands for the identifier of what is under it. -/
theorem create_keyed_null :
    let r : Registry := ⟨[("M", .model ⟨"M", [("id", .identifier)], true⟩)]⟩
    let made : Value := .record none "M" "M" [("id", .str "a")]
    r.create (.map (.named "M")) (.dict [(.null, .dict [(.str (.whole "id"), .str "a")])]) =
      .ok (.dict [(.str (.whole "a"), made)]) := by
  intro r made
  let m : Model := ⟨"M", [("id", .identifier)], true⟩
  have hm : r.find? "M" = some (.model m) := rfl
  have hf : m.fault? = none := by simp [m, Model.fault?]
  obtain ⟨hcheck, -⟩ := check_sole_identifier hm hf rfl (.whole "a")
  refine create_eq_ok_iff.mpr ⟨rfl, (validate_map_eq_ok_iff hm).mpr ?_⟩
  exact ⟨[(.whole "a", made)], by simp, .cons ⟨hcheck, rfl⟩ .nil, rfl⟩

end Registry

end CheckedModels
