import CheckedModels.Proofs.Conversion.Made
import CheckedModels.Proofs.Conversion.Reload

/-! Records are read by the names of their properties, and the attribute names under which instances
hold the values play no part in it. -/
namespace CheckedModels.Registry

abbrev Accepts (r : Registry) (d : Descriptor) (v : Value) : Prop := ∃ w, r.check d v = .ok w

variable {r : Registry} {d : Descriptor} {key : String} {m : Model} {v w : Value}

theorem isValid_eq_true_iff : r.isValid d v = .ok true ↔ r.nameEnds d = true ∧ r.Accepts d v := by
  rw [← exists_and_left]
  simp only [← convert_eq_ok_iff]
  unfold isValid
  split <;> simp_all

theorem isValid_iff_accepts (hends : r.nameEnds d = true) : r.isValid d v = .ok true ↔ r.Accepts d v := by
  rw [isValid_eq_true_iff, and_iff_right hends]

theorem isValid_rejected {issues : List Issue} (hends : r.nameEnds d = true)
    (h : r.check d v = .error (.rejected issues)) : r.isValid d v = .ok false := by
  rw [isValid, convert, onItsOwn_of_nameEnds hends, h]

theorem isValid_broken {fault : Fault} (hends : r.nameEnds d = true)
    (h : r.check d v = .error (.broken fault)) : r.isValid d v = .error fault := by
  rw [isValid, convert, onItsOwn_of_nameEnds hends, h]

/-- Where a value is accepted as it stands, nothing is put in its place. -/
theorem create_of_check (hends : r.nameEnds d = true) (h : r.check d v = .ok w) : r.create d v = .ok w := by
  refine create_eq_ok_iff.mpr ⟨hends, ?_⟩
  unfold input
  split
  · next m hm =>
    obtain ⟨key, rfl, hfind⟩ := record?_eq_some_iff.mp hm
    cases hf : m.fault? with
    | some fault =>
      rw [check, validate_fault hfind hf] at h
      cases h
    | none =>
      rw [check, validate_not_model hfind hf (by simp) (by simp)] at h
      cases h
  · exact h

/-- A property that is left out is null if it may be, and what is there is taken by its descriptor. -/
theorem part_eq_ok_iff {entries : List (Scalar × Value)} {p : String × Descriptor} :
    r.part entries p = .ok w ↔
      (Value.under? entries p.1 = none → (∃ inner, p.2 = .maybeNull inner) ∧ w = .null) ∧
        ∀ x, Value.under? entries p.1 = some x → r.check p.2 x = .ok w := by
  unfold part
  cases hx : Value.under? entries p.1 with
  | none => simp [omitted_eq_ok_iff]
  | some x => simp [embed_eq_ok_iff]

theorem exists_part_iff {entries : List (Scalar × Value)} {p : String × Descriptor} :
    (∃ y, r.part entries p = .ok y) ↔
      (Value.under? entries p.1 = none → ∃ inner, p.2 = .maybeNull inner) ∧
        ∀ x, Value.under? entries p.1 = some x → r.Accepts p.2 x := by
  simp only [part_eq_ok_iff, Accepts]
  cases hx : Value.under? entries p.1 <;> simp

theorem related_build {entries : List (Scalar × Value)} {parts : List Value}
    (h : List.Forall₂ (fun p y => r.part entries p = .ok y) m.properties parts) :
    List.Forall₂ (fun p q => p.1 = q.1 ∧ r.part entries p = .ok q.2) m.properties
      (m.properties.keys.zip parts) ∧ (Entries.keys (m.properties.keys.zip parts)) = m.properties.keys := by
  have hbuilt := Entries.forall₂_zip_keys h
  have hsame : Entries.Related (fun _ _ => True) m.properties (m.properties.keys.zip parts) :=
    hbuilt.imp fun _ _ h => ⟨h.1, trivial⟩
  exact ⟨hbuilt, hsame.keys_eq.symm⟩

theorem exists_value_build (distinct : m.properties.keys.Nodup) {entries : List (Scalar × Value)}
    {parts : List Value} (h : List.Forall₂ (fun p y => r.part entries p = .ok y) m.properties parts)
    {p : String × Descriptor} (hp : p ∈ m.properties) :
    ∃ y, r.part entries p = .ok y ∧ (m.properties.keys.zip parts).lookup p.1 = some y := by
  obtain ⟨hbuilt, hkeys⟩ := related_build h
  have hdistinct : (Entries.keys (m.properties.keys.zip parts)).Nodup := hkeys.symm ▸ distinct
  obtain ⟨⟨name, y⟩, hq, hname, hpart⟩ := Entries.exists_rel_of_mem hbuilt.flip hp
  obtain rfl : p.1 = name := hname
  exact ⟨y, hpart, Entries.lookup_of_mem hdistinct hq⟩

/-- An instance has the value of each property under the attribute of the property. -/
theorem exists_attribute_build (distinct : m.properties.keys.Nodup) {entries : List (Scalar × Value)}
    {parts : List Value} (h : List.Forall₂ (fun p y => r.part entries p = .ok y) m.properties parts)
    {p : String × Descriptor} (hp : p ∈ m.properties) : ∃ y, r.part entries p = .ok y ∧
      (m.properties.keys.zip parts).lookup p.1 = some y ∧
      (m.build key parts).attribute? (m.attributeName p.1) = some y := by
  obtain ⟨y, hpart, hlookup⟩ := exists_value_build distinct h hp
  obtain ⟨-, hkeys⟩ := related_build h
  refine ⟨y, hpart, hlookup, ?_⟩
  have hattribute : (m.build key parts).attribute? (AttributeName.ofKey _ p.1) = _ :=
    Value.attribute?_record (by rwa [hkeys]) (by rw [hkeys]; exact Entries.mem_keys_of_mem hp)
  rwa [hkeys, hlookup] at hattribute

/-- A model takes the dictionaries whose keys are properties and that leave out only what may be null, if
each descriptor by itself takes what it finds. An instance then has the properties in their order, each
with what its descriptor makes, and holds each under an attribute of its own. The name of such an
attribute is no key. -/
theorem create_record (hm : r.find? key = some (.model m)) (isSealed : m.isSealed = true)
    (named : m.name.contains '\x00' = false) (distinct : m.properties.keys.Nodup)
    (hends : ∀ p ∈ m.properties, r.nameEnds p.2 = true) (entries : List (Scalar × Value)) :
    ((∃ w, r.create (.named key) (.dict entries) = .ok w) ↔
      (∀ e ∈ entries, ∃ name ∈ m.properties.keys, e.1 = .str (.whole name)) ∧
      ∀ p ∈ m.properties,
        (Value.under? entries p.1 = none → ∃ inner, p.2 = .maybeNull inner) ∧
        ∀ x, Value.under? entries p.1 = some x → r.isValid p.2 x = .ok true) ∧
    (∀ w, r.create (.named key) (.dict entries) = .ok w →
      (∃ attributes held, w = .instance none key m.name attributes held) ∧
      ∃ values : Entries Value, values.keys = m.properties.keys ∧
        w.snapshot = .dict (values.map fun q => (.str (.whole q.1), q.2.snapshot)) ∧
        ∀ p ∈ m.properties, ∃ y, values.lookup p.1 = some y ∧
          (Value.under? entries p.1 = none → y = .null) ∧
          (∀ x, Value.under? entries p.1 = some x → r.create p.2 x = .ok y) ∧
          w.attribute? (m.attributeName p.1) = some y) ∧
    ∀ name ∈ m.properties.keys,
      (∀ other ∈ m.properties.keys, m.attributeName other = m.attributeName name → other = name) ∧
      (m.attributeName name ∉ m.properties.keys →
        ∀ e ∈ entries, e.1 = .str (.whole (m.attributeName name)) →
          ∀ w, r.create (.named key) (.dict entries) ≠ .ok w) := by
  have hf : m.fault? = none := by simp [Model.fault?, isSealed, named]
  have hcreate : ∀ w, r.create (.named key) (.dict entries) = .ok w ↔
      (∀ e ∈ entries, ∃ name ∈ m.properties.keys, e.1 = .str (.whole name)) ∧
      ∃ parts, List.Forall₂ (fun p y => r.part entries p = .ok y) m.properties parts ∧
        w = m.build key parts := by
    intro w
    rw [create_eq_ok_iff, and_iff_right (nameEnds_of_record (record?_named hm))]
    exact validate_dict_eq_ok_iff hm hf
  refine ⟨⟨?_, ?_⟩, ?_, ?_⟩
  · rintro ⟨w, hw⟩
    obtain ⟨hkeys, parts, hparts, -⟩ := (hcreate w).mp hw
    refine ⟨hkeys, fun p hp => ?_⟩
    obtain ⟨y, -, hy⟩ := Entries.exists_rel_of_mem hparts.flip hp
    obtain ⟨habsent, hpresent⟩ := exists_part_iff.mp ⟨y, hy⟩
    exact ⟨habsent, fun x hx => (isValid_iff_accepts (hends p hp)).mpr (hpresent x hx)⟩
  · rintro ⟨hkeys, hproperties⟩
    obtain ⟨parts, hparts⟩ := Entries.exists_forall₂ fun p hp => exists_part_iff.mpr
      ⟨(hproperties p hp).1, fun x hx => (isValid_iff_accepts (hends p hp)).mp ((hproperties p hp).2 x hx)⟩
    exact ⟨_, (hcreate _).mpr ⟨hkeys, parts, hparts, rfl⟩⟩
  · intro w hw
    obtain ⟨-, parts, hparts, rfl⟩ := (hcreate w).mp hw
    obtain ⟨-, hkeys⟩ := related_build hparts
    refine ⟨⟨_, _, rfl⟩, _, hkeys, Value.snapshot_record (by rwa [hkeys]), fun p hp => ?_⟩
    obtain ⟨y, hpart, hlookup, hattribute⟩ := exists_attribute_build distinct hparts hp
    obtain ⟨habsent, hpresent⟩ := part_eq_ok_iff.mp hpart
    exact ⟨y, hlookup, fun hnone => (habsent hnone).2,
      fun x hx => create_of_check (hends p hp) (hpresent x hx), hattribute⟩
  · intro name hname
    refine ⟨fun other hother => AttributeName.ofKey_injective distinct hname hother, ?_⟩
    intro hnew e he hkey w hw
    obtain ⟨other, hother, heq⟩ := ((hcreate w).mp hw).1 e he
    obtain rfl : m.attributeName name = other := by simpa [hkey] using heq
    exact hnew hother

/-- The attribute of one property may be the name of another, which then goes by yet another name. -/
theorem create_record_renamed :
    let m : Model := ⟨"Term", [("_1", .maybeNull .number), ("1_", .number)], true⟩
    let r : Registry := ⟨[("Term", .model m)]⟩
    let entries : List (Scalar × Value) := [(.str (.whole "1_"), .scalar (.int 2))]
    r.find? "Term" = some (.model m) ∧ m.isSealed = true ∧ m.name.contains '\x00' = false ∧
      m.properties.keys.Nodup ∧ (∀ p ∈ m.properties, r.nameEnds p.2 = true) ∧
      ∃ w, r.create (.named "Term") (.dict entries) = .ok w ∧
        w.attribute? "1_" = some .null ∧ w.attribute? "1__" = some (.scalar (.int 2)) := by
  intro m r entries
  have hm : r.find? "Term" = some (.model m) := rfl
  have hnamed : m.name.contains '\x00' = false := by simp [m]
  have hdistinct : m.properties.keys.Nodup := by decide
  have hends : ∀ p ∈ m.properties, r.nameEnds p.2 = true := by decide
  have hfirst : m.attributeName "_1" = "1_" := by decide +kernel
  have hsecond : m.attributeName "1_" = "1__" := by decide +kernel
  have hnumber : r.check .number (.scalar (.int 2)) = .ok (.scalar (.int 2)) := validate_basic _ _
  obtain ⟨haccepts, hmade, -⟩ := create_record hm rfl hnamed hdistinct hends entries
  obtain ⟨w, hw⟩ : ∃ w, r.create (.named "Term") (.dict entries) = .ok w := by
    refine haccepts.mpr ⟨by simp [entries, m, Entries.keys], ?_⟩
    have hvalid : r.isValid .number (.scalar (.int 2)) = .ok true :=
      (isValid_iff_accepts (nameEnds_basic _)).mpr ⟨_, hnumber⟩
    simp [m, entries, Value.under?, hvalid]
  obtain ⟨-, values, -, -, hall⟩ := hmade w hw
  refine ⟨hm, rfl, hnamed, hdistinct, hends, w, hw, ?_, ?_⟩
  · obtain ⟨y, -, habsent, -, hattribute⟩ := hall ("_1", .maybeNull .number) (by simp [m])
    rw [← hfirst, hattribute, habsent (by simp [entries, Value.under?])]
  · obtain ⟨y, -, -, hpresent, hattribute⟩ := hall ("1_", .number) (by simp [m])
    have hy := hpresent (.scalar (.int 2)) (by simp [entries, Value.under?])
    rw [create_of_check (nameEnds_basic _) hnumber] at hy
    rw [← hsecond, hattribute, Except.ok.inj hy]

/-- Two models that do not take what their properties ask for: of the name of one no class can be made, and
the other takes what a descriptor without a finite name never takes by itself. -/
theorem create_record_unusable :
    let lists : Union := { alternatives := [.array (.named "W"), .string], isSealed := true }
    let choice : Union := { alternatives := [.number, .named "W"], isSealed := true }
    let m : Model := ⟨"B\x00", [], true⟩
    let n : Model := ⟨"M", [("u", .named "V")], true⟩
    let r : Registry := ⟨[("B\x00", .model m), ("W", .union lists), ("V", .union choice), ("M", .model n)]⟩
    let five : Value := .scalar (.int 5)
    r.AllSealed ∧ r.create (.named "B\x00") (.dict []) = .error (.fault .nullInName) ∧
      (∃ w, r.create (.named "M") (.dict [(.str (.whole "u"), five)]) = .ok w) ∧
      r.isValid (.named "V") five = .error .endless := by
  intro lists choice m n r five
  have hM : r.find? "M" = some (.model n) := rfl
  have hV : r.find? "V" = some (.union choice) := rfl
  have hsealed : r.AllSealed := by
    intro key model hfind
    have hmem := Entries.mem_of_lookup hfind
    simp only [r, List.mem_cons, Prod.mk.injEq, List.not_mem_nil, or_false] at hmem
    rcases hmem with ⟨-, h⟩ | ⟨-, h⟩ | ⟨-, h⟩ | ⟨-, h⟩ <;> cases h <;> rfl
  refine ⟨hsealed, ?_, ?_, ?_⟩
  · have hfault : m.fault? = some .nullInName := by simp [m, Model.fault?]
    have hcheck : r.check (.named "B\x00") (.dict []) = Outcome.broken .nullInName :=
      validate_fault rfl hfault _
    rw [create, convert, onItsOwn_of_nameEnds rfl]
    simp only [input, hcheck, Outcome.broken]
  · have hnumber : r.check (.named "V") five = .ok five := by
      have hmember : r.isInstanceOf five choice.alternatives = .ok false := rfl
      rw [check, validate, hV]
      simp only [hmember]
      simp [r, choice, onItsOwn, nameEnds_basic, validate_basic, Basic.validate, five, Outcome.first]
    have hf : n.fault? = none := by simp [n, Model.fault?]
    have hpart : r.part [(.str (.whole "u"), five)] ("u", .named "V") = .ok five :=
      part_eq_ok_iff.mpr ⟨by simp [Value.under?], by simp [Value.under?, hnumber]⟩
    refine ⟨_, create_eq_ok_iff.mpr ⟨rfl, (validate_dict_eq_ok_iff hM hf).mpr ⟨?_, [five], ?_, rfl⟩⟩⟩
    · simp [n, Entries.keys]
    · exact .cons hpart .nil
  · rw [isValid, convert, onItsOwn_endless rfl]
    rfl

end CheckedModels.Registry
