import CheckedModels.Proofs.Compile.Closure
import CheckedModels.Proofs.Conformance.Compiled

/-! Own fields and the fields of interfaces: which of them a model has, which one stands behind a
property, and in which order the properties come. -/
namespace CheckedModels

namespace Scope

variable {s : Scope}

/-- A field that is kept puts its name, and no other does. -/
theorem keys_addField {c : Composition} {given : List String} (h : c.properties.keys = given.eraseDups)
    (f : Field) : (s.addField c f).properties.keys =
      (given ++ ([f].filter s.keeps).map Field.name).eraseDups := by
  unfold addField Composition.add keeps
  cases hf : f.isIdentifierCandidate with
  | true => simpa [hf] using Entries.keys_put_of_eq h f.name _
  | false =>
    cases hr : s.resolve? f with
    | none => simpa [hf, hr] using h
    | some d => simpa [hf, hr] using Entries.keys_put_of_eq h f.name d

/-- A field of an interface puts its name if it is kept, or if the model overrides it. -/
theorem keys_addInherited {own : Entries Descriptor} {c : Composition} {given : List String}
    (h : c.properties.keys = given.eraseDups) (f : Field) : (s.addInherited own c f).properties.keys =
      (given ++ ([f].filter fun f => s.keeps f || own.keys.contains f.name).map Field.name).eraseDups := by
  unfold addInherited
  cases hl : own.lookup f.name with
  | none =>
    have hnone : f.name ∉ own.keys := Entries.lookup_eq_none_iff.mp hl
    simpa [hnone, List.filter_singleton] using s.keys_addField h f
  | some d =>
    have hsome : f.name ∈ own.keys := Entries.lookup_isSome_iff.mp (by simp [hl])
    simpa [hsome] using Entries.keys_put_of_eq h f.name d

theorem keys_foldl {add : Composition → Field → Composition} {counts : Field → Bool}
    (hadd : ∀ {given : List String} {c : Composition}, c.properties.keys = given.eraseDups →
      ∀ f, (add c f).properties.keys = (given ++ ([f].filter counts).map Field.name).eraseDups)
    (fields : List Field) {c : Composition} {given : List String}
    (h : c.properties.keys = given.eraseDups) : (fields.foldl add c).properties.keys =
      (given ++ (fields.filter counts).map Field.name).eraseDups := by
  induction fields generalizing c given with
  | nil => simpa using h
  | cons f rest ih =>
    rw [List.foldl_cons, ih (hadd h f), ← List.singleton_append (l := rest), List.filter_append,
      List.map_append, List.append_assoc]

theorem keys_ownProperties (choice : IdentifierChoice) (fields : List Field) :
    (s.ownProperties choice fields).properties.keys =
      ((fields.filter s.keeps).map Field.name).eraseDups := by
  have hstart : Entries.keys ([] : Entries Descriptor) = ([] : List String).eraseDups := rfl
  exact keys_foldl s.keys_addField fields (c := ⟨⟨choice, none⟩, []⟩) hstart

theorem addInterface_eq (own : Entries Descriptor) (c : Composition) (name : String) :
    s.addInterface own c name = (s.mergedFields name).foldl (fun c e => s.addInherited own c e.2) c := by
  unfold addInterface
  split
  · rfl
  · next hi =>
    rw [mergedFields_of_unknown (by simpa using hi)]
    rfl

theorem foldl_addInterface (own : Entries Descriptor) (names : List String) (c : Composition) :
    names.foldl (s.addInterface own) c =
      ((names.flatMap s.mergedFields).map Prod.snd).foldl (s.addInherited own) c := by
  induction names generalizing c with
  | nil => rfl
  | cons name rest ih =>
    rw [List.foldl_cons, ih, addInterface_eq, List.flatMap_cons, List.map_append, List.foldl_append]
    simp only [List.foldl_map]

/-- What the listed interfaces bring, by the walks through them. -/
theorem flatMap_mergedFields {names : List String} {lines : List (List RecordDeclaration)}
    (h : names.map s.lineage = lines) : names.flatMap s.mergedFields = lines.flatMap fun line =>
      Entries.ofPairs (line.flatMap fun i => i.fields.map fun f => (f.name, f)) := by
  rw [← h, List.flatMap_map]
  rfl

/-- The properties of a model, given the walks through the interfaces that it lists. -/
def composeAlong (s : Scope) (lines : List (List RecordDeclaration)) (choice : IdentifierChoice)
    (d : Declaration) : Entries Descriptor :=
  let own := s.ownProperties choice d.fields
  let listed := lines.flatMap fun line =>
    Entries.ofPairs (line.flatMap fun i => i.fields.map fun f => (f.name, f))
  let inherited := (listed.map Prod.snd).foldl (s.addInherited own.properties) ⟨own.claim, []⟩
  inherited.properties.putAll own.properties

theorem compose_eq_composeAlong {d : Declaration} {lines : List (List RecordDeclaration)}
    (h : d.interfaces.map s.lineage = lines) (choice : IdentifierChoice) :
    s.compose choice d = s.composeAlong lines choice d := by
  rw [compose, foldl_addInterface, flatMap_mergedFields h]
  rfl

/-- The names of the own fields that are kept. -/
def ownNames (s : Scope) (d : Declaration) : List String := (d.fields.filter s.keeps).map Field.name

/-- A field of an interface counts if it is kept, or if an own field of its name is. -/
def counts (s : Scope) (d : Declaration) (f : Field) : Bool :=
  s.keeps f || (s.ownNames d).contains f.name

/-- The keys of a model in their order: first those that its interfaces bring, then its own. -/
theorem keys_compose (choice : IdentifierChoice) (d : Declaration) : (s.compose choice d).keys =
    ((((d.interfaces.flatMap s.mergedFields).map Prod.snd).filter (s.counts d)).map Field.name ++
      s.ownNames d).eraseDups := by
  let own := s.ownProperties choice d.fields
  have hown : own.properties.keys = (s.ownNames d).eraseDups := s.keys_ownProperties choice d.fields
  have hcounts : s.counts d = fun f => s.keeps f || own.properties.keys.contains f.name := by
    funext f
    rw [counts, hown]
    simp
  have hstart : Entries.keys ([] : Entries Descriptor) = ([] : List String).eraseDups := rfl
  have hinherited : (d.interfaces.foldl (s.addInterface own.properties) ⟨own.claim, []⟩).properties.keys =
      ((((d.interfaces.flatMap s.mergedFields).map Prod.snd).filter (s.counts d)).map
        Field.name).eraseDups := by
    rw [foldl_addInterface, hcounts]
    exact keys_foldl s.keys_addInherited _ (c := ⟨own.claim, []⟩) hstart
  rw [compose, Entries.keys_putAll_of_eq hinherited, hown, Entries.eraseDups_append_eraseDups]

end Scope

namespace Declarations

variable {ds : Declarations}

theorem Yields.find?_composeAlong {config : Config} {r : Registry} (h : ds.Yields config r) {d : Declaration}
    (hd : d ∈ ds.all) (hm : d.isModel = true) (hr : d.name ∈ r.keys) {lines : List (List RecordDeclaration)}
    (hlines : (ds.resolve d).interfaces.map (Scope.lineage { declarations := ds.resolveKinds }) = lines) :
    r.find? d.name = some (.model ⟨d.name, Scope.composeAlong { declarations := ds.resolveKinds } lines
      (config.choice d.name) (ds.resolve d), true⟩) := by
  rw [h.find?_model hd hm hr, Scope.compose_eq_composeAlong hlines]

/-- The fields of an interface, those that it inherits among them. -/
def merged (ds : Declarations) (interface : String) : Entries Field :=
  Scope.mergedFields { declarations := ds } interface

/-- The names of the own fields of known types. -/
def ownNames (ds : Declarations) (d : Declaration) : List String :=
  (d.fields.filter fun f => ds.knows f.typeName).map Field.name

/-- The properties of a model by its own fields and those of the interfaces that it lists. A field of an
unknown type is dropped. An interface that nothing declares has no fields. -/
structure Composed (ds : Declarations) (choice : IdentifierChoice) (d : Declaration)
    (ps : Entries Descriptor) : Prop where
  keys : ∀ key, key ∈ ps.keys ↔ (∃ f ∈ d.fields, f.name = key ∧ ds.knows f.typeName = true) ∨
    ∃ i ∈ d.interfaces, ∃ f, (key, f) ∈ ds.merged i ∧ ds.knows f.typeName = true
  /-- Interfaces change nothing about the properties of own fields. -/
  own : ∀ f ∈ d.fields, ds.knows f.typeName = true → ps.lookup f.name =
    (Scope.ownProperties { declarations := ds.resolveKinds } choice
      (ds.resolve d).fields).properties.lookup f.name
  /-- The last own field of a name stands behind its property. -/
  describes : ∀ before f after, d.fields = before ++ f :: after → ds.knows f.typeName = true →
    (∀ g ∈ after, g.name = f.name → ds.knows g.typeName = false) →
      ∃ p, ps.lookup f.name = some p ∧
        Scope.Describes { declarations := ds.resolveKinds } (ds.resolveField f) p
  /-- Without an own field, the last interface that has a field of the name does. -/
  inherits : ∀ before i after, d.interfaces = before ++ i :: after →
    ∀ key f, (key, f) ∈ ds.merged i → ds.knows f.typeName = true →
      (∀ j ∈ after, ∀ g, (key, g) ∈ ds.merged j → ds.knows g.typeName = false) →
      (∀ g ∈ d.fields, g.name = key → ds.knows g.typeName = false) →
        ∃ p, ps.lookup key = some p ∧
          Scope.Describes { declarations := ds.resolveKinds } (ds.resolveField f) p
  order : ps.keys = (((d.interfaces.flatMap ds.merged).filter fun e =>
    ds.knows e.2.typeName || (ds.ownNames d).contains e.1).map Prod.fst ++ ds.ownNames d).eraseDups

theorem ownNames_resolve (distinct : ds.names.Nodup) (unset : ds.Unset) {d : Declaration}
    (hd : d ∈ ds.all) :
    Scope.ownNames { declarations := ds.resolveKinds } (ds.resolve d) = ds.ownNames d := by
  have hfilter : d.fields.filter (Scope.keeps { declarations := ds.resolveKinds } ∘ ds.resolveField) =
      d.fields.filter fun f => ds.knows f.typeName :=
    List.filter_congr fun f hf => keeps_resolveField distinct (unset d hd f hf)
  rw [Scope.ownNames, fields_resolve, List.filter_map, hfilter, List.map_map, ownNames]
  exact List.map_congr_left fun f _ => name_resolveField ds f

/-- The last listed field of a name, among those of known types, is the one behind its property. -/
theorem lookup_composedFields {d : Declaration} {before after : Entries Field} {key : String}
    {f : Field} (hlisted : Scope.listedFields { declarations := ds } d = before ++ (key, f) :: after)
    (hf : ds.knows f.typeName = true) (hafter : ∀ g, (key, g) ∈ after → ds.knows g.typeName = false) :
    (ds.composedFields d).lookup key = some f := by
  rw [composedFields, hlisted, List.filter_append, List.filter_cons_of_pos (by simpa using hf)]
  refine Entries.lookup_ofPairs_of_last fun hkey => ?_
  obtain ⟨e, he, rfl⟩ := List.mem_map.mp hkey
  obtain ⟨hmem, hknown⟩ := List.mem_filter.mp he
  rw [hafter e.2 hmem] at hknown
  exact Bool.false_ne_true hknown

theorem lookup_composedFields_own {d : Declaration} {before after : List Field} {f : Field}
    (hfields : d.fields = before ++ f :: after) (hf : ds.knows f.typeName = true)
    (hafter : ∀ g ∈ after, g.name = f.name → ds.knows g.typeName = false) :
    (ds.composedFields d).lookup f.name = some f := by
  have hlisted : Scope.listedFields { declarations := ds } d =
      (d.interfaces.flatMap ds.merged ++ before.map fun f => (f.name, f)) ++
        (f.name, f) :: after.map fun f => (f.name, f) := by
    rw [Scope.listedFields, hfields, List.map_append, List.map_cons, List.append_assoc]
    rfl
  refine lookup_composedFields hlisted hf fun g hg => ?_
  obtain ⟨other, hother, heq⟩ := List.mem_map.mp hg
  obtain ⟨hname, rfl⟩ := Prod.mk.inj heq
  exact hafter other hother hname

theorem lookup_composedFields_inherited {d : Declaration} {before after : List String} {i key : String}
    {f : Field} (hinterfaces : d.interfaces = before ++ i :: after) (hmem : (key, f) ∈ ds.merged i)
    (hf : ds.knows f.typeName = true)
    (hafter : ∀ j ∈ after, ∀ g, (key, g) ∈ ds.merged j → ds.knows g.typeName = false)
    (hown : ∀ g ∈ d.fields, g.name = key → ds.knows g.typeName = false) :
    (ds.composedFields d).lookup key = some f := by
  obtain ⟨first, rest, hmerged⟩ := List.append_of_mem hmem
  have hlisted : Scope.listedFields { declarations := ds } d =
      (before.flatMap ds.merged ++ first) ++ (key, f) ::
        (rest ++ after.flatMap ds.merged ++ d.fields.map fun f => (f.name, f)) := by
    have hflat : d.interfaces.flatMap ds.merged =
        before.flatMap ds.merged ++ (first ++ (key, f) :: rest) ++ after.flatMap ds.merged := by
      rw [hinterfaces, List.flatMap_append, List.flatMap_cons, hmerged]
      simp
    have hlist : Scope.listedFields { declarations := ds } d =
        d.interfaces.flatMap ds.merged ++ d.fields.map fun f => (f.name, f) := rfl
    rw [hlist, hflat]
    simp
  -- The fields of one interface have distinct names.
  have hrest : ∀ g, (key, g) ∉ rest := by
    have hdistinct : (ds.merged i).keys.Nodup := Entries.nodup_ofPairs _
    intro g hg
    rw [hmerged, Entries.keys, List.map_append, List.map_cons] at hdistinct
    exact (List.nodup_cons.mp (List.nodup_append.mp hdistinct).2.1).1 (List.mem_map.mpr ⟨_, hg, rfl⟩)
  refine lookup_composedFields hlisted hf fun g hg => ?_
  rcases List.mem_append.mp hg with hg | hg
  · rcases List.mem_append.mp hg with hg | hg
    · exact absurd hg (hrest g)
    · obtain ⟨j, hj, hg⟩ := List.mem_flatMap.mp hg
      exact hafter j hj g hg
  · obtain ⟨other, hother, heq⟩ := List.mem_map.mp hg
    obtain ⟨hname, rfl⟩ := Prod.mk.inj heq
    exact hown other hother hname

section Described

variable (distinct : ds.names.Nodup) (unset : ds.Unset) {d : Declaration} (hd : d ∈ ds.all)
  (choice : IdentifierChoice)

include distinct unset hd

theorem describes_compose {key : String} {f : Field} (h : (ds.composedFields d).lookup key = some f) :
    ∃ p, (Scope.compose { declarations := ds.resolveKinds } choice (ds.resolve d)).lookup key = some p ∧
      Scope.Describes { declarations := ds.resolveKinds } (ds.resolveField f) p := by
  have hsupply := Scope.supplies_compose { declarations := ds.resolveKinds } choice (ds.resolve d) key
    List.not_mem_nil
  rw [composedFields_resolveKinds distinct unset hd, Entries.lookup_map, h] at hsupply
  generalize List.lookup key _ = found at hsupply ⊢
  cases hsupply with
  | some hdescribes => exact ⟨_, rfl, hdescribes⟩

theorem keys_compose_eq :
    (Scope.compose { declarations := ds.resolveKinds } choice (ds.resolve d)).keys =
      (((d.interfaces.flatMap ds.merged).filter fun e =>
        ds.knows e.2.typeName || (ds.ownNames d).contains e.1).map Prod.fst ++
          ds.ownNames d).eraseDups := by
  let s : Scope := { declarations := ds.resolveKinds }
  have hmerged : ((ds.resolve d).interfaces.flatMap s.mergedFields).map Prod.snd =
      (d.interfaces.flatMap ds.merged).map fun e => ds.resolveField e.2 := by
    have hflat : d.interfaces.flatMap s.mergedFields =
        d.interfaces.flatMap fun i => (ds.merged i).map fun e => (e.1, ds.resolveField e.2) :=
      List.flatMap_congr fun i _ => ds.mergedFields_resolveKinds i
    rw [interfaces_resolve, hflat, ← List.map_flatMap, List.map_map]
    rfl
  have hlisted : ∀ e ∈ d.interfaces.flatMap ds.merged, e.2.kind = .unknown ∧ e.1 = e.2.name := by
    intro e he
    refine ⟨kind_of_mem_listedFields unset hd (List.mem_append_left _ he), ?_⟩
    obtain ⟨i, -, he⟩ := List.mem_flatMap.mp he
    exact Scope.name_of_mem_mergedFields _ he
  have hcounts : (d.interfaces.flatMap ds.merged).filter
        (s.counts (ds.resolve d) ∘ fun e => ds.resolveField e.2) =
      (d.interfaces.flatMap ds.merged).filter fun e =>
        ds.knows e.2.typeName || (ds.ownNames d).contains e.1 := by
    refine List.filter_congr fun e he => ?_
    obtain ⟨hkind, hname⟩ := hlisted e he
    rw [Function.comp_apply, Scope.counts, keeps_resolveField distinct hkind,
      ownNames_resolve distinct unset hd, name_resolveField, hname]
  rw [s.keys_compose, hmerged, List.filter_map, hcounts, ownNames_resolve distinct unset hd,
    List.map_map]
  congr 2
  refine List.map_congr_left fun e he => ?_
  rw [Function.comp_apply, name_resolveField, (hlisted e (List.mem_filter.mp he).1).2]

theorem composed_compose : ds.Composed choice d
    (Scope.compose { declarations := ds.resolveKinds } choice (ds.resolve d)) := by
  let s : Scope := { declarations := ds.resolveKinds }
  refine ⟨fun key => ?_, fun f hf hknown => ?_, ?_, ?_, keys_compose_eq distinct unset hd choice⟩
  · rw [keys_compose_eq distinct unset hd, List.mem_eraseDups, List.mem_append, or_comm]
    have hown : key ∈ ds.ownNames d ↔ ∃ f ∈ d.fields, f.name = key ∧ ds.knows f.typeName = true := by
      simp only [ownNames, List.mem_map, List.mem_filter]
      exact ⟨fun ⟨f, ⟨hf, hk⟩, hn⟩ => ⟨f, hf, hn, hk⟩, fun ⟨f, hf, hn, hk⟩ => ⟨f, ⟨hf, hk⟩, hn⟩⟩
    rw [← hown]
    constructor
    · rintro (hkey | hkey)
      · exact .inl hkey
      · obtain ⟨e, he, rfl⟩ := List.mem_map.mp hkey
        obtain ⟨hmem, hcounts⟩ := List.mem_filter.mp he
        obtain ⟨i, hi, hmem⟩ := List.mem_flatMap.mp hmem
        rcases Bool.or_eq_true_iff.mp hcounts with hknown | hnamed
        · exact .inr ⟨i, hi, e.2, hmem, hknown⟩
        · exact .inl (List.contains_iff_mem.mp hnamed)
    · rintro (hkey | ⟨i, hi, f, hf, hknown⟩)
      · exact .inl hkey
      · have hmem : (key, f) ∈ d.interfaces.flatMap ds.merged := List.mem_flatMap.mpr ⟨i, hi, hf⟩
        exact .inr (List.mem_map.mpr ⟨(key, f), List.mem_filter.mpr ⟨hmem, by simp [hknown]⟩, rfl⟩)
  · have hmem : f.name ∈ (s.ownProperties choice (ds.resolve d).fields).properties.keys := by
      rw [s.keys_ownProperties, List.mem_eraseDups]
      have hnames := ownNames_resolve distinct unset hd
      rw [Scope.ownNames] at hnames
      rw [hnames]
      exact List.mem_map_of_mem (List.mem_filter.mpr ⟨hf, hknown⟩)
    obtain ⟨p, hp⟩ := Entries.exists_lookup hmem
    rw [hp]
    exact s.lookup_compose_of_own hp
  · intro before f after hfields hknown hafter
    exact describes_compose distinct unset hd choice (lookup_composedFields_own hfields hknown hafter)
  · intro before i after hinterfaces key f hmem hknown hafter hown
    exact describes_compose distinct unset hd choice
      (lookup_composedFields_inherited hinterfaces hmem hknown hafter hown)

end Described

/-- Every record that is compiled has the properties of its own fields and of those of its interfaces.
Exactly the fields of unknown types are dropped. -/
theorem compile_composed (distinct : ds.names.Nodup) (unset : ds.Unset) (config : Config) :
    ∃ c, ds.compile config = .ok c ∧
      (∀ d ∈ ds.all, ∀ f ∈ d.fields, Scope.keeps { declarations := ds.resolveKinds } (ds.resolveField f) =
        ((builtinKind? f.typeName).isSome || (ds.find? f.typeName).isSome)) ∧
      ∀ d ∈ ds.all, d.isModel = true → d.name ∈ c.registry.keys →
        ∃ ps, c.registry.find? d.name = some (.model ⟨d.name, ps, true⟩) ∧
          ds.Composed (config.choice d.name) d ps := by
  obtain ⟨c, hc, hyields⟩ := yields_compile distinct config
  refine ⟨c, hc, fun d hd f hf => keeps_resolveField distinct (unset d hd f hf), fun d hd hm hr => ?_⟩
  exact ⟨_, hyields.find?_model hd hm hr, composed_compose distinct unset hd _⟩

/-- Both interfaces have a field that the object overrides, one before an inherited field and one that is
of an unknown type. -/
theorem compile_composed_overridden :
    let ds : Declarations :=
      { objects := [⟨"User", [⟨"age", .named "Int", .unknown⟩, ⟨"id", .named "String", .unknown⟩],
          ["Node", "Entity"]⟩]
        interfaces := [⟨"Node", [⟨"id", .named "ID", .unknown⟩, ⟨"at", .named "String", .unknown⟩], []⟩,
          ⟨"Entity", [⟨"age", .named "Age", .unknown⟩, ⟨"at", .named "Int", .unknown⟩], ["Node"]⟩] }
    ds.names.Nodup ∧ ds.Unset ∧ ∃ c, ds.compile {} = .ok c ∧
      (∀ d ∈ ds.all, ∀ f ∈ d.fields, Scope.keeps { declarations := ds.resolveKinds } (ds.resolveField f) =
        ((builtinKind? f.typeName).isSome || (ds.find? f.typeName).isSome)) ∧
      ∀ d ∈ ds.all, d.isModel = true → d.name ∈ c.registry.keys →
        ∃ ps, c.registry.find? d.name = some (.model ⟨d.name, ps, true⟩) ∧
          ds.Composed (Config.choice {} d.name) d ps := by
  intro ds
  have distinct : ds.names.Nodup := by decide
  have unset : ds.Unset := by simp [Unset, ds, all, Declaration.fields]
  exact ⟨distinct, unset, compile_composed distinct unset {}⟩

end Declarations

end CheckedModels
