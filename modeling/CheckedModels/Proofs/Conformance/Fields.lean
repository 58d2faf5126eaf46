import CheckedModels.Proofs.Conformance.Relation

/-! The fields of a schema whose kinds are not set, beside the properties that they are compiled to. -/
namespace CheckedModels

/-- The type of a field as a descriptor under its layers. -/
inductive Declarations.Bases (ds : Declarations) (name : String) : Descriptor → Prop where
  | builtin {b : Basic} (h : builtin? name = some (.basic b)) : Bases ds name (.basic b)
  | declared {d : Declaration} (hn : builtinKind? name = none) (hd : ds.find? name = some d) :
    Bases ds name (.named name)

/-- What a field of a known type is compiled to. -/
inductive Declarations.Renders (ds : Declarations) (f : Field) : Descriptor → Prop where
  | identifier (h : builtinKind? f.typeName = some .identifier) : Renders ds f .identifier
  | wrapped {base : Descriptor} (h : ds.Bases f.typeName base) : Renders ds f (f.type.wrap base true)

namespace Declarations

theorem Bases.isIdentifier_eq {ds : Declarations} {name : String} {base : Descriptor}
    (h : ds.Bases name base) : base.isIdentifier = false := by
  cases h with
  | builtin hb => exact isIdentifier_builtin? hb
  | declared => rfl

theorem Bases.isMaybeNull_eq {ds : Declarations} {name : String} {base : Descriptor}
    (h : ds.Bases name base) : base.isMaybeNull = false := by
  cases h <;> rfl

/-- No field has its kind set. -/
def Unset (ds : Declarations) : Prop := ∀ d ∈ ds.all, ∀ f ∈ d.fields, f.kind = .unknown

variable {ds : Declarations} {f : Field}

theorem typeName_resolveField (f : Field) : (ds.resolveField f).typeName = f.typeName := by
  rw [Field.typeName, Field.typeName, type_resolveField]

theorem kind_resolveField (h : f.kind = .unknown) : (ds.resolveField f).kind = ds.kindOf f.typeName := by
  simp [resolveField, h]

theorem base?_of_builtin (h : f.kind = .unknown) {k : ReferencedKind}
    (hk : builtinKind? f.typeName = some k) (named : String → DeclarationKind → Option Descriptor) :
    (ds.resolveField f).base? named = builtin? f.typeName := by
  have hkind : (ds.resolveField f).kind = k := by
    rw [kind_resolveField h, kindOf, hk]
  have hcases : k = .primitive ∨ k = .identifier := by
    unfold builtinKind? at hk
    split at hk <;> simp_all
  unfold Field.base?
  rcases hcases with rfl | rfl <;> simp only [hkind, typeName_resolveField]

theorem base?_of_declared (distinct : ds.names.Nodup) (h : f.kind = .unknown)
    (hn : builtinKind? f.typeName = none) {d : Declaration} (hd : ds.find? f.typeName = some d) :
    (ds.resolveField f).base? (Scope.named? { declarations := ds.resolveKinds }) =
      some (.named f.typeName) := by
  have hkind : (ds.resolveField f).kind = d.kind.toReferenced := by
    rw [kind_resolveField h, kindOf, hn, hd]
  obtain ⟨hmem, hname⟩ := find?_mem hd
  have hfound : (ds.resolveKinds.findKind? d.kind f.typeName).isSome = true := by
    rw [findKind?_resolveKinds, ← hname, findKind?_of_mem distinct hmem]
    rfl
  have hrequest : (ds.resolveField f).request? = some (f.typeName, d.kind) := by
    rw [Field.request?, hkind, ReferencedKind.declared?_toReferenced, typeName_resolveField]
    rfl
  have hbase : (ds.resolveField f).base? (Scope.named? { declarations := ds.resolveKinds }) =
      Scope.named? { declarations := ds.resolveKinds } f.typeName d.kind := by
    unfold Field.base?
    rw [hkind, hrequest]
    cases d.kind <;> rfl
  rw [hbase]
  simp [Scope.named?, hfound]

/-- A field of a known type resolves to that type under its layers. -/
theorem exists_base (distinct : ds.names.Nodup) (h : f.kind = .unknown)
    (hk : ds.knows f.typeName = true) : ∃ base, ds.Bases f.typeName base ∧
      Scope.resolve? { declarations := ds.resolveKinds } (ds.resolveField f) =
        some (f.type.wrap base true) := by
  unfold Scope.resolve? Field.resolve?
  rw [type_resolveField]
  cases hn : builtinKind? f.typeName with
  | some k =>
    rw [base?_of_builtin h hn]
    have hsome := isSome_builtin? f.typeName
    rw [hn] at hsome
    obtain ⟨base, hbase⟩ := Option.isSome_iff_exists.mp hsome
    obtain ⟨b, rfl, -⟩ := builtin?_takes hbase
    exact ⟨.basic b, .builtin hbase, by rw [hbase]; rfl⟩
  | none =>
    obtain ⟨d, hd⟩ : ∃ d, ds.find? f.typeName = some d := by
      simpa [knows, hn, Option.isSome_iff_exists] using hk
    exact ⟨.named f.typeName, .declared hn hd, by rw [base?_of_declared distinct h hn hd]; rfl⟩

theorem resolve?_of_unknown (h : f.kind = .unknown) (hk : ds.knows f.typeName = false) :
    Scope.resolve? { declarations := ds.resolveKinds } (ds.resolveField f) = none := by
  obtain ⟨hn, hd⟩ : builtinKind? f.typeName = none ∧ ds.find? f.typeName = none := by
    simpa [knows] using hk
  have hkind : (ds.resolveField f).kind = .unknown := by
    rw [kind_resolveField h, kindOf, hn, hd]
  simp [Scope.resolve?, Field.resolve?, Field.base?, Field.request?, hkind, ReferencedKind.declared?]

theorem builtinKind?_of_candidate (h : f.kind = .unknown)
    (hc : (ds.resolveField f).isIdentifierCandidate = true) :
    builtinKind? f.typeName = some .identifier ∧ f.type.listDepth = 0 := by
  unfold Field.isIdentifierCandidate at hc
  rw [kind_resolveField h] at hc
  obtain ⟨hkind, hlist⟩ : ds.kindOf f.typeName = .identifier ∧
      (ds.resolveField f).isList = false := by simpa using hc
  refine ⟨?_, by simpa [Field.isList, Field.listDepth] using hlist⟩
  unfold kindOf at hkind
  split at hkind
  · next hb => rw [hb, hkind]
  · split at hkind
    · next d _ => cases hk : d.kind <;> simp [hk, DeclarationKind.toReferenced] at hkind
    · simp at hkind

theorem keeps_resolveField (distinct : ds.names.Nodup) (h : f.kind = .unknown) :
    Scope.keeps { declarations := ds.resolveKinds } (ds.resolveField f) = ds.knows f.typeName := by
  unfold Scope.keeps
  cases hk : ds.knows f.typeName with
  | true =>
    obtain ⟨base, -, hbase⟩ := exists_base distinct h hk
    simp [hbase]
  | false =>
    rw [resolve?_of_unknown h hk, Bool.or_eq_false_iff]
    refine ⟨Bool.eq_false_iff.mpr fun hc => ?_, rfl⟩
    simp [knows, (builtinKind?_of_candidate h hc).1] at hk

/-- An identifier field that is not the identifier is text, as its type says. -/
theorem plainIdentifier_eq (h : f.type.listDepth = 0) : f.plainIdentifier = f.type.wrap .string true := by
  have hwrap : ∀ (t : TypeRef) (nullable : Bool), t.listDepth = 0 → t.wrap .string nullable =
      if nullable && !t.isNonNull then .maybeNull .string else .string := by
    intro t
    induction t with
    | named name => intro nullable _; cases nullable <;> rfl
    | list item => intro _ h; simp [TypeRef.listDepth] at h
    | nonNull inner ih => intro nullable h; simpa [TypeRef.wrap, TypeRef.isNonNull] using ih false h
  rw [hwrap f.type true h, Field.plainIdentifier, Field.isRequired]
  cases f.type.isNonNull <;> rfl

theorem renders_of_describes (distinct : ds.names.Nodup) (h : f.kind = .unknown)
    (hk : ds.knows f.typeName = true) {d : Descriptor}
    (hd : Scope.Describes { declarations := ds.resolveKinds } (ds.resolveField f) d) :
    ds.Renders f d := by
  cases hd with
  | identifier hc => exact .identifier (builtinKind?_of_candidate h hc).1
  | plain hc =>
    obtain ⟨hname, hlist⟩ := builtinKind?_of_candidate h hc
    have hstring : builtin? f.typeName = some .string := by
      unfold builtinKind? at hname
      unfold builtin?
      split at hname <;> simp_all
    have hplain : (ds.resolveField f).plainIdentifier = f.type.wrap .string true := by
      rw [plainIdentifier_eq (by rwa [type_resolveField]), type_resolveField]
    rw [hplain]
    exact .wrapped (.builtin hstring)
  | resolved _ hr =>
    obtain ⟨base, hbase, hresolve⟩ := exists_base distinct h hk
    rw [Option.some.inj (hr.symm.trans hresolve)]
    exact .wrapped hbase

theorem listedFields_resolveKinds (ds : Declarations) (d : Declaration) :
    Scope.listedFields { declarations := ds.resolveKinds } (ds.resolve d) =
      (Scope.listedFields { declarations := ds } d).map fun e => (e.1, ds.resolveField e.2) := by
  have hmerged : d.interfaces.flatMap (Scope.mergedFields { declarations := ds.resolveKinds }) =
      d.interfaces.flatMap fun name => (Scope.mergedFields { declarations := ds } name).map fun e =>
        (e.1, ds.resolveField e.2) :=
    List.flatMap_congr fun name _ => ds.mergedFields_resolveKinds name
  rw [Scope.listedFields, Scope.listedFields, interfaces_resolve, fields_resolve, hmerged,
    List.map_append, List.map_flatMap]
  simp [Function.comp_def]

theorem kind_of_mem_listedFields (unset : ds.Unset) {d : Declaration} (hd : d ∈ ds.all)
    {e : String × Field} (he : e ∈ Scope.listedFields { declarations := ds } d) :
    e.2.kind = .unknown := by
  rcases List.mem_append.mp he with he | he
  · obtain ⟨name, -, he⟩ := List.mem_flatMap.mp he
    obtain ⟨i, hi, hf⟩ := Scope.exists_interface_of_mem_mergedFields he
    exact unset _ hi _ hf
  · obtain ⟨f, hf, rfl⟩ := List.mem_map.mp he
    exact unset d hd f hf

theorem composedFields_resolveKinds (distinct : ds.names.Nodup) (unset : ds.Unset) {d : Declaration}
    (hd : d ∈ ds.all) : Scope.composedFields { declarations := ds.resolveKinds } (ds.resolve d) =
      (ds.composedFields d).map fun e => (e.1, ds.resolveField e.2) := by
  have hfilter : ((Scope.listedFields { declarations := ds } d).filter fun e =>
      Scope.keeps { declarations := ds.resolveKinds } (ds.resolveField e.2)) =
      (Scope.listedFields { declarations := ds } d).filter fun e => ds.knows e.2.typeName :=
    List.filter_congr fun e he => keeps_resolveField distinct (kind_of_mem_listedFields unset hd he)
  unfold Scope.composedFields composedFields
  rw [listedFields_resolveKinds, List.filter_map, ← Entries.ofPairs_map, ← hfilter]
  rfl

theorem lookup_compose (distinct : ds.names.Nodup) (unset : ds.Unset) {d : Declaration}
    (hd : d ∈ ds.all) (choice : IdentifierChoice) (key : String) :
    Option.Rel ds.Renders ((ds.composedFields d).lookup key)
      ((Scope.compose { declarations := ds.resolveKinds } choice (ds.resolve d)).lookup key) := by
  have hsupply := Scope.supplies_compose { declarations := ds.resolveKinds } choice (ds.resolve d) key
    List.not_mem_nil
  rw [composedFields_resolveKinds distinct unset hd, Entries.lookup_map] at hsupply
  cases hf : (ds.composedFields d).lookup key with
  | none =>
    rw [hf] at hsupply
    generalize List.lookup key _ = found at hsupply ⊢
    cases hsupply
    exact .none
  | some f =>
    rw [hf] at hsupply
    generalize List.lookup key _ = found at hsupply ⊢
    cases hsupply with
    | some hdescribes =>
      have hmem : (key, f) ∈ (Scope.listedFields { declarations := ds } d).filter
          fun e => ds.knows e.2.typeName :=
        (Entries.mem_putAll (Entries.mem_of_lookup hf)).resolve_right List.not_mem_nil
      obtain ⟨hlisted, hknown⟩ := List.mem_filter.mp hmem
      have hkind := kind_of_mem_listedFields unset hd hlisted
      exact .some (renders_of_describes distinct hkind hknown hdescribes)

theorem mem_keys_compose_iff (distinct : ds.names.Nodup) (unset : ds.Unset) {d : Declaration}
    (hd : d ∈ ds.all) (choice : IdentifierChoice) {key : String} :
    key ∈ (Scope.compose { declarations := ds.resolveKinds } choice (ds.resolve d)).keys ↔
      key ∈ (ds.composedFields d).keys := by
  rw [← Entries.lookup_isSome_iff, ← Entries.lookup_isSome_iff]
  have hlookup := lookup_compose distinct unset hd choice key
  generalize List.lookup key (ds.composedFields d) = field at hlookup ⊢
  generalize List.lookup key _ = property at hlookup ⊢
  cases hlookup <;> simp

theorem exists_field_of_mem_compose (distinct : ds.names.Nodup) (unset : ds.Unset) {d : Declaration}
    (hd : d ∈ ds.all) (choice : IdentifierChoice) {p : String × Descriptor}
    (hp : p ∈ Scope.compose { declarations := ds.resolveKinds } choice (ds.resolve d)) :
    ∃ f, (p.1, f) ∈ ds.composedFields d ∧ ds.Renders f p.2 := by
  have hproperty := Entries.lookup_of_mem (Scope.nodup_keys_compose _ _ _) hp
  have hlookup := lookup_compose distinct unset hd choice p.1
  rw [hproperty] at hlookup
  cases hf : (ds.composedFields d).lookup p.1 with
  | none =>
    rw [hf] at hlookup
    cases hlookup
  | some f =>
    rw [hf] at hlookup
    cases hlookup with
    | some hrenders => exact ⟨f, Entries.mem_of_lookup hf, hrenders⟩

end Declarations

end CheckedModels
