import CheckedModels.Proofs.Compile.Closure
import CheckedModels.Proofs.Compile.Identifier
import CheckedModels.Proofs.Compile.Locality
import CheckedModels.Proofs.Compile.Precedence
import CheckedModels.Proofs.Compile.Walk

/-! What a record has from its interfaces where no field is dropped, and how far a record that lists one
interface agrees with the model of that interface. -/
namespace CheckedModels

namespace Scope

variable {s : Scope} {key : String}

/-- All that the interfaces declare, one after the other. -/
def declaredFields (interfaces : List RecordDeclaration) : Entries Field :=
  interfaces.flatMap fun i => i.fields.map fun f => (f.name, f)

def declares (key : String) (i : RecordDeclaration) : Bool := (i.fields.map Field.name).contains key

theorem mem_keys_declaredFields {interfaces : List RecordDeclaration} :
    key ∈ (declaredFields interfaces).keys ↔ ∃ i ∈ interfaces, key ∈ i.fields.map Field.name := by
  simp [declaredFields, Entries.keys, List.map_flatMap, Function.comp_def]

/-- Interfaces that do not declare a name do not matter to it. -/
theorem lookup_declaredFields_filter (interfaces : List RecordDeclaration) (key : String) :
    (Entries.ofPairs (declaredFields (interfaces.filter (declares key)))).lookup key =
      (Entries.ofPairs (declaredFields interfaces)).lookup key := by
  induction interfaces with
  | nil => rfl
  | cons i rest ih =>
    have hcons : ∀ rest, declaredFields (i :: rest) = declaredFields [i] ++ declaredFields rest := by
      simp [declaredFields]
    rw [hcons rest, Entries.lookup_ofPairs_append, ← ih]
    by_cases hi : declares key i = true
    · rw [List.filter_cons_of_pos hi, hcons, Entries.lookup_ofPairs_append]
    · have hnone : (Entries.ofPairs (declaredFields [i])).lookup key = none := by
        rw [Entries.lookup_eq_none_iff, Entries.mem_keys_ofPairs, mem_keys_declaredFields]
        simpa [declares] using hi
      rw [List.filter_cons_of_neg hi, hnone, Option.or_none]

/-- Merging interface by interface is merging all that is visited on the way. -/
theorem lookup_flatMap_mergedFields (names : List String) (key : String) :
    (Entries.ofPairs (names.flatMap s.mergedFields)).lookup key =
      (Entries.ofPairs (declaredFields (names.flatMap s.lineage))).lookup key := by
  induction names with
  | nil => rfl
  | cons name rest ih =>
    have hflat : declaredFields (s.lineage name ++ rest.flatMap s.lineage) =
        declaredFields (s.lineage name) ++ declaredFields (rest.flatMap s.lineage) :=
      List.flatMap_append
    rw [List.flatMap_cons, List.flatMap_cons, hflat, Entries.lookup_ofPairs_append, ih,
      Entries.lookup_ofPairs_append]
    exact congrArg _ (Entries.lookup_ofPairs_of_nodup (Entries.nodup_ofPairs _) key)

theorem mem_keys_mergedFields {name : String} :
    key ∈ (s.mergedFields name).keys ↔ ∃ i ∈ s.lineage name, key ∈ i.fields.map Field.name := by
  rw [mergedFields, Entries.mem_keys_ofPairs]
  exact mem_keys_declaredFields

theorem mem_keys_listedFields {d : Declaration} : key ∈ (s.listedFields d).keys ↔
    (∃ name ∈ d.interfaces, key ∈ (s.mergedFields name).keys) ∨ key ∈ d.fields.map Field.name := by
  simp only [listedFields, Entries.keys, List.map_append, List.mem_append, List.map_flatMap,
    List.mem_flatMap, List.map_map]
  rfl

variable {i : RecordDeclaration}

theorem lineage_eq (h : s.interface? i.name = some i) : s.lineage i.name =
    s.lineageFrom (i.interfaces.map .enter) [i.name] ++ [i] := by
  rw [lineage, lineageFrom_new h List.not_mem_nil, lineageFrom_append (by simp), lineageFrom_leave,
    lineageFrom_nil]

theorem lookup_mergedFields_own (h : s.interface? i.name = some i)
    (hkey : key ∈ i.fields.map Field.name) : (s.mergedFields i.name).lookup key =
      (Entries.ofPairs (s.listedFields (.interface i))).lookup key := by
  have hown : ((Entries.ofPairs (declaredFields [i])).lookup key).isSome = true := by
    rw [Entries.lookup_isSome_iff, Entries.mem_keys_ofPairs, mem_keys_declaredFields]
    exact ⟨i, List.mem_cons_self, hkey⟩
  have hlisted : s.listedFields (.interface i) =
      i.interfaces.flatMap s.mergedFields ++ declaredFields [i] := by
    simp [listedFields, declaredFields, Declaration.interfaces, Declaration.fields]
  have hmerged : s.mergedFields i.name = Entries.ofPairs
      (declaredFields (s.lineageFrom (i.interfaces.map .enter) [i.name]) ++ declaredFields [i]) := by
    rw [mergedFields, lineage_eq h, List.flatMap_append]
    rfl
  rw [hmerged, hlisted, Entries.lookup_ofPairs_append, Entries.lookup_ofPairs_append,
    Option.or_of_isSome hown, Option.or_of_isSome hown]

theorem lookup_fields_eq_none {fields : List Field} (h : key ∉ fields.map Field.name) :
    (Entries.ofPairs (fields.map fun f => (f.name, f))).lookup key = none := by
  rw [Entries.lookup_eq_none_iff, Entries.mem_keys_ofPairs]
  simpa [Entries.keys, Function.comp_def] using h

/-- Where no interface that declares the name is behind two of those that are listed, the walk and the
merge of what is listed find the same field. -/
theorem lookup_mergedFields_apart (h : s.interface? i.name = some i)
    (hkey : key ∉ i.fields.map Field.name) (hapart : i.interfaces.Pairwise (s.Apart (declares key))) :
    (s.mergedFields i.name).lookup key =
      (Entries.ofPairs (s.listedFields (.interface i))).lookup key := by
  have hdeclares : declares key i = false := by simpa [declares] using hkey
  have hlisted : (Entries.ofPairs (s.listedFields (.interface i))).lookup key =
      (Entries.ofPairs (i.interfaces.flatMap s.mergedFields)).lookup key := by
    rw [listedFields, Entries.lookup_ofPairs_append]
    exact (congrArg (Option.or · _) (lookup_fields_eq_none hkey)).trans (Option.none_or ..)
  calc (s.mergedFields i.name).lookup key
      = (Entries.ofPairs (declaredFields (s.lineage i.name))).lookup key := rfl
    _ = (Entries.ofPairs (declaredFields ((s.lineage i.name).filter (declares key)))).lookup key :=
        (lookup_declaredFields_filter _ key).symm
    _ = (Entries.ofPairs (declaredFields
          ((i.interfaces.flatMap s.lineage).filter (declares key)))).lookup key := by
        rw [filter_lineage_eq h hdeclares hapart]
    _ = (Entries.ofPairs (declaredFields (i.interfaces.flatMap s.lineage))).lookup key :=
        lookup_declaredFields_filter _ key
    _ = (Entries.ofPairs (s.listedFields (.interface i))).lookup key := by
        rw [hlisted, lookup_flatMap_mergedFields]

end Scope

namespace Declarations

variable {ds : Declarations} {d : Declaration} {i : RecordDeclaration} {key name : String}

def Kept (ds : Declarations) : Prop := ∀ d ∈ ds.all, ∀ f ∈ d.fields,
  Scope.keeps { declarations := ds.resolveKinds } (ds.resolveField f) = true

/-- Where kinds are left to be looked up, every type that is built in or declared makes a property. -/
theorem kept_of_knows (distinct : ds.names.Nodup) (unset : ds.Unset)
    (h : ∀ d ∈ ds.all, ∀ f ∈ d.fields, ds.knows f.typeName = true) : ds.Kept := by
  intro d hd f hf
  rw [keeps_resolveField distinct (unset d hd f hf)]
  exact h d hd f hf

theorem interface?_eq_some_iff : Scope.interface? { declarations := ds } name = some i ↔
    ds.findKind? .interface name = some (.interface i) := by
  unfold Scope.interface?
  constructor
  · intro h
    split at h
    · next found => rw [found, Option.some.inj h]
    · simp at h
  · intro h
    simp [h]

theorem interface?_of_mem (distinct : ds.names.Nodup) (hi : .interface i ∈ ds.all) :
    Scope.interface? { declarations := ds } i.name = some i :=
  interface?_eq_some_iff.mpr (findKind?_of_mem distinct hi)

theorem exists_interface_of_lists {e : Declaration} (h : ds.Lists d e) :
    ∃ name ∈ d.interfaces, ∃ i, e = .interface i ∧
      Scope.interface? { declarations := ds } name = some i := by
  obtain ⟨name, hname, he⟩ := h
  have hkind : e.kind = .interface := (findKind?_mem he).2.2
  cases e with
  | interface i => exact ⟨name, hname, i, rfl, interface?_eq_some_iff.mpr he⟩
  | object | input | union | enum | scalar => cases hkind

/-- What the walk visits is the interface that it starts from and those that this one implements. -/
theorem mem_lineage_iff : i ∈ Scope.lineage { declarations := ds } name ↔
    ∃ e, ds.findKind? .interface name = some e ∧ Relation.ReflTransGen ds.Lists e (.interface i) := by
  rw [Scope.mem_lineage_iff]
  constructor
  · rintro ⟨top, htop, hreach⟩
    refine ⟨.interface top, interface?_eq_some_iff.mp htop, ?_⟩
    induction hreach with
    | refl => exact .refl
    | tail _ hextends ih =>
      obtain ⟨other, hother, hj⟩ := hextends
      exact ih.tail ⟨other, hother, interface?_eq_some_iff.mp hj⟩
  · rintro ⟨e, he, hreach⟩
    have hall : ∀ x, Relation.ReflTransGen ds.Lists e x → ∃ j, x = .interface j ∧
        j ∈ Scope.lineage { declarations := ds } name := by
      intro x hx
      induction hx with
      | refl =>
        have hkind : e.kind = .interface := (findKind?_mem he).2.2
        cases e with
        | interface top => exact ⟨top, rfl, Scope.mem_lineage_self (interface?_eq_some_iff.mpr he)⟩
        | object | input | union | enum | scalar => cases hkind
      | tail _ hlists ih =>
        obtain ⟨j, rfl, hj⟩ := ih
        obtain ⟨other, hother, k, rfl, hk⟩ := exists_interface_of_lists hlists
        exact ⟨k, rfl, Scope.mem_lineage_of_extends hj ⟨other, hother, hk⟩⟩
    obtain ⟨j, heq, hj⟩ := hall _ hreach
    obtain rfl : i = j := Declaration.interface.inj heq
    rw [← Scope.mem_lineage_iff]
    exact hj

theorem implements_iff {e : Declaration} : ds.Implements d e ↔
    ∃ name ∈ d.interfaces, ∃ i, e = .interface i ∧ i ∈ Scope.lineage { declarations := ds } name := by
  constructor
  · intro h
    obtain ⟨first, hfirst, hreach⟩ := Relation.TransGen.head'_iff.mp h
    obtain ⟨name, hname, he⟩ := hfirst
    have hkind : e.kind = .interface := by
      rcases hreach.cases_tail with rfl | ⟨_, _, other, _, hother⟩
      · exact (findKind?_mem he).2.2
      · exact (findKind?_mem hother).2.2
    cases e with
    | interface i => exact ⟨name, hname, i, rfl, mem_lineage_iff.mpr ⟨first, he, hreach⟩⟩
    | object | input | union | enum | scalar => cases hkind
  · rintro ⟨name, hname, i, rfl, hi⟩
    obtain ⟨first, hfirst, hreach⟩ := mem_lineage_iff.mp hi
    exact Relation.TransGen.head' ⟨name, hname, hfirst⟩ hreach

theorem findKind?_of_implements {e : Declaration} (h : ds.Implements d e) :
    ds.findKind? .interface e.name = some e := by
  obtain ⟨name, -, i, rfl, hi⟩ := implements_iff.mp h
  exact interface?_eq_some_iff.mp (Scope.interface?_of_mem_lineage hi)

/-- The interface of this name is `e` or implements it, and `e` declares the field. -/
def Brings (ds : Declarations) (name key : String) (e : Declaration) : Prop :=
  (∃ top, ds.findKind? .interface name = some top ∧ Relation.ReflTransGen ds.Lists top e) ∧
    key ∈ e.fields.map Field.name

/-- Nothing depends on how the interfaces of an interface are gone through to find the field of this name:
the interface declares it itself, or there is only one such field, or no interface that declares it is
behind two of those that are listed. -/
inductive Undisputed (ds : Declarations) (i : RecordDeclaration) (key : String) : Prop where
  | own (h : key ∈ i.fields.map Field.name)
  | alike (f : Field) (h : ∀ e, ds.Implements (.interface i) e → ∀ g ∈ e.fields, g.name = key → g = f)
  | apart (h : i.interfaces.Pairwise fun a b => ∀ e, ds.Brings a key e → ¬ ds.Brings b key e)

/-- The fields behind the properties where no field is dropped. -/
theorem composedFields_of_kept (kept : ds.Kept) (hd : d ∈ ds.all) :
    Scope.composedFields { declarations := ds.resolveKinds } (ds.resolve d) =
      (Entries.ofPairs (Scope.listedFields { declarations := ds } d)).map fun e =>
        (e.1, ds.resolveField e.2) := by
  have hall : ∀ e ∈ Scope.listedFields { declarations := ds } d,
      Scope.keeps { declarations := ds.resolveKinds } (ds.resolveField e.2) = true := by
    intro e he
    rcases List.mem_append.mp he with he | he
    · obtain ⟨other, -, he⟩ := List.mem_flatMap.mp he
      obtain ⟨j, hj, hf⟩ := Scope.exists_interface_of_mem_mergedFields he
      exact kept _ hj _ hf
    · obtain ⟨f, hf, rfl⟩ := List.mem_map.mp he
      exact kept d hd f hf
  rw [Scope.composedFields, listedFields_resolveKinds, ← Entries.ofPairs_map, List.filter_map]
  congr 2
  exact List.filter_eq_self.mpr hall

/-- Without dropped fields, a record has the properties of its own fields and of those of all interfaces
that it implements. -/
theorem mem_keys_listedFields_iff : key ∈ (Scope.listedFields { declarations := ds } d).keys ↔
    (∃ e, ds.Implements d e ∧ key ∈ e.fields.map Field.name) ∨ key ∈ d.fields.map Field.name := by
  rw [Scope.mem_keys_listedFields]
  refine or_congr ?_ Iff.rfl
  constructor
  · rintro ⟨name, hname, hkey⟩
    obtain ⟨j, hj, hkey⟩ := Scope.mem_keys_mergedFields.mp hkey
    exact ⟨.interface j, implements_iff.mpr ⟨name, hname, j, rfl, hj⟩, hkey⟩
  · rintro ⟨e, he, hkey⟩
    obtain ⟨name, hname, j, rfl, hj⟩ := implements_iff.mp he
    exact ⟨name, hname, Scope.mem_keys_mergedFields.mpr ⟨j, hj, hkey⟩⟩

/-- What comes from an interface is all that its own model has. -/
theorem mem_keys_merged_of_listed (hi : Scope.interface? { declarations := ds } i.name = some i)
    (h : key ∈ (Scope.listedFields { declarations := ds } (.interface i)).keys) :
    key ∈ (ds.merged i.name).keys := by
  rcases mem_keys_listedFields_iff.mp h with ⟨e, he, hkey⟩ | hkey
  · obtain ⟨name, hname, j, rfl, hj⟩ := implements_iff.mp he
    obtain ⟨top, htop, hreach⟩ := Scope.mem_lineage_iff.mp hj
    have hextends : Scope.Extends { declarations := ds } i top := ⟨name, hname, htop⟩
    exact Scope.mem_keys_mergedFields.mpr
      ⟨j, Scope.mem_lineage_iff.mpr ⟨i, hi, .head hextends hreach⟩, hkey⟩
  · exact Scope.mem_keys_mergedFields.mpr ⟨i, Scope.mem_lineage_self hi, hkey⟩

/-- A field that comes from an interface is declared by it or by one that it implements. -/
theorem exists_declaring_of_mem_merged (hi : Scope.interface? { declarations := ds } i.name = some i)
    {g : Field} (hg : (key, g) ∈ ds.merged i.name) : g.name = key ∧
      (g ∈ i.fields ∨ ∃ e, ds.Implements (.interface i) e ∧ g ∈ e.fields) := by
  obtain ⟨j, hj, hgj⟩ := Scope.exists_lineage_of_mem_mergedFields hg
  refine ⟨(Scope.name_of_mem_mergedFields _ hg).symm, ?_⟩
  rcases Scope.mem_lineage_cases hi hj with rfl | ⟨other, hother, -, hj⟩
  · exact .inl hgj
  · exact .inr ⟨.interface j, implements_iff.mpr ⟨other, hother, j, rfl, hj⟩, hgj⟩

theorem exists_declaring_of_mem_listed {g : Field}
    (hg : (key, g) ∈ Scope.listedFields { declarations := ds } d) : g.name = key ∧
      (g ∈ d.fields ∨ ∃ e, ds.Implements d e ∧ g ∈ e.fields) := by
  rcases List.mem_append.mp hg with hg | hg
  · obtain ⟨name, hname, hmem⟩ := List.mem_flatMap.mp hg
    obtain ⟨e, he, hge⟩ := exists_implements_of_mem_mergedFields hname hmem
    exact ⟨(Scope.name_of_mem_mergedFields _ hmem).symm, .inr ⟨e, he, hge⟩⟩
  · obtain ⟨g', hg', heq⟩ := List.mem_map.mp hg
    obtain ⟨hname, rfl⟩ := Prod.mk.inj heq
    exact ⟨hname, .inl hg'⟩

/-- Where a field is undisputed, the walk from the interface and the merge of what it lists find the same
field. -/
theorem lookup_merged_of_undisputed (hi : Scope.interface? { declarations := ds } i.name = some i)
    (h : ds.Undisputed i key) {g : Field} (hg : (Entries.ofPairs (Scope.listedFields
      { declarations := ds } (.interface i))).lookup key = some g) :
    (ds.merged i.name).lookup key = some g := by
  by_cases hown : key ∈ i.fields.map Field.name
  · rw [← hg]
    exact Scope.lookup_mergedFields_own hi hown
  · cases h with
    | own h => exact absurd h hown
    | apart h =>
      rw [← hg]
      refine Scope.lookup_mergedFields_apart hi hown (h.imp fun hab j hj hj' => ?_)
      by_contra hdeclares
      have hkey : key ∈ j.fields.map Field.name := by simpa [Scope.declares] using hdeclares
      exact hab (.interface j) ⟨mem_lineage_iff.mp hj, hkey⟩ ⟨mem_lineage_iff.mp hj', hkey⟩
    | alike f h =>
      have hfield : ∀ g : Field, g.name = key ∧
          (g ∈ i.fields ∨ ∃ e, ds.Implements (.interface i) e ∧ g ∈ e.fields) → g = f := by
        rintro g ⟨hname, hmem | ⟨e, he, hge⟩⟩
        · exact absurd (List.mem_map.mpr ⟨g, hmem, hname⟩) hown
        · exact h e he g hge hname
      have hlisted := (Entries.mem_putAll (Entries.mem_of_lookup hg)).resolve_right List.not_mem_nil
      obtain ⟨g', hg'⟩ := Entries.exists_lookup
        (mem_keys_merged_of_listed hi (Entries.mem_keys_of_mem hlisted))
      rw [hg', hfield g' (exists_declaring_of_mem_merged hi (Entries.mem_of_lookup hg')),
        hfield g (exists_declaring_of_mem_listed hlisted)]

/-- Without dropped fields, every property is what the field behind it stands for. -/
theorem describes_compose_of_kept (kept : ds.Kept) (hd : d ∈ ds.all) (choice : IdentifierChoice)
    (key : String) : Option.Rel
      (fun g p => Scope.Describes { declarations := ds.resolveKinds } (ds.resolveField g) p)
      ((Entries.ofPairs (Scope.listedFields { declarations := ds } d)).lookup key)
      ((Scope.compose { declarations := ds.resolveKinds } choice (ds.resolve d)).lookup key) := by
  have hsupply := Scope.supplies_compose { declarations := ds.resolveKinds } choice (ds.resolve d) key
    List.not_mem_nil
  rw [composedFields_of_kept kept hd, Entries.lookup_map] at hsupply
  generalize (Entries.ofPairs (Scope.listedFields { declarations := ds } d)).lookup key = field,
    (Scope.compose _ _ _).lookup key = property at hsupply ⊢
  cases field with
  | none =>
    cases hsupply
    exact .none
  | some g =>
    cases hsupply with
    | some hdescribes => exact .some hdescribes

/-- No listed field is missing among the properties. -/
theorem mem_keys_compose_of_kept (kept : ds.Kept) (hd : d ∈ ds.all) (choice : IdentifierChoice) :
    key ∈ (Scope.compose { declarations := ds.resolveKinds } choice (ds.resolve d)).keys ↔
      key ∈ (Scope.listedFields { declarations := ds } d).keys := by
  have hbehind := describes_compose_of_kept kept hd choice key
  refine Iff.trans ?_ Entries.mem_keys_ofPairs
  rw [← Entries.lookup_isSome_iff, ← Entries.lookup_isSome_iff]
  generalize (Entries.ofPairs (Scope.listedFields _ _)).lookup key = field,
    (Scope.compose _ _ _).lookup key = property at hbehind ⊢
  cases hbehind <;> simp

/-- A record that lists one interface has its other fields from there. -/
theorem lookup_listedFields_single {name : String} (hlist : d.interfaces = [name])
    (hkey : key ∉ d.fields.map Field.name) :
    (Entries.ofPairs (Scope.listedFields { declarations := ds } d)).lookup key =
      (ds.merged name).lookup key := by
  rw [Scope.listedFields, hlist, List.flatMap_singleton, Entries.lookup_ofPairs_append,
    Scope.lookup_fields_eq_none hkey, Option.none_or]
  exact Entries.lookup_ofPairs_of_nodup (Entries.nodup_ofPairs _) key

theorem mem_keys_compile_iff (distinct : ds.names.Nodup) {config : Config} {c : Compilation}
    (hc : ds.compile config = .ok c) (hd : d ∈ ds.all) : d.name ∈ c.registry.keys ↔
      Scope.Reached { declarations := ds.resolveKinds } (ds.resolve d) := by
  have hdistinct : ds.resolveKinds.names.Nodup := ds.names_resolveKinds ▸ distinct
  rw [keys_compile hc]
  constructor
  · intro hname
    have hmem := mem_reached_of_mem_names hdistinct (mem_all_resolveKinds_iff.mpr ⟨d, hd, rfl⟩)
      (by rwa [name_resolve])
    exact Scope.reached_of_mem hmem
  · intro hreached
    have hmem := mem_of_reached hdistinct hreached
    rw [name_resolve] at hmem
    exact Entries.mem_keys_of_mem hmem

theorem mem_keys_of_lists (distinct : ds.names.Nodup) {config : Config} {c : Compilation}
    (hc : ds.compile config = .ok c) (hd : d ∈ ds.all) (hr : d.name ∈ c.registry.keys) {e : Declaration}
    (h : ds.Lists d e) : e.name ∈ c.registry.keys := by
  obtain ⟨name, hname, he⟩ := h
  have hasks : Scope.Asks { declarations := ds.resolveKinds } (ds.resolve d) (ds.resolve e) := by
    refine Scope.asks_of_interface (by rwa [interfaces_resolve]) ?_
    rw [findKind?_resolveKinds, he]
    rfl
  have hreached := (mem_keys_compile_iff distinct hc hd).mp hr
  exact (mem_keys_compile_iff distinct hc (findKind?_mem he).1).mpr (hreached.asked hasks)

/-- A record that lists one interface only has every property that the model of that interface has. Where
the field is undisputed and the record has none of that name itself, the descriptor is the same, but for a
field that may be the identifier. -/
theorem compile_inherits (distinct : ds.names.Nodup) (kept : ds.Kept) {d : Declaration}
    {i : RecordDeclaration} (hd : d ∈ ds.all) (hi : .interface i ∈ ds.all)
    (hlist : d.interfaces = [i.name]) (config : Config) :
    ∃ c, ds.compile config = .ok c ∧ (d.name ∈ c.registry.keys → ∃ ps qs,
      c.registry.find? d.name = some (.model ⟨d.name, ps, true⟩) ∧
      c.registry.find? i.name = some (.model ⟨i.name, qs, true⟩) ∧
      ∀ key q, qs.lookup key = some q → ∃ p, ps.lookup key = some p ∧
        (key ∉ d.fields.map Field.name → ds.Undisputed i key →
          p = q ∨ ∃ f : Field, f.Redecided p q)) := by
  obtain ⟨c, hc, hyields⟩ := yields_compile distinct config
  refine ⟨c, hc, fun hr => ?_⟩
  have hmodel : d.isModel = true := by
    cases d with
    | object | interface => rfl
    | input | union | enum | scalar => cases hlist
  have hfound := interface?_of_mem distinct hi
  have hlists : ds.Lists d (.interface i) :=
    ⟨i.name, by rw [hlist]; exact List.mem_cons_self, interface?_eq_some_iff.mp hfound⟩
  have hreached : i.name ∈ c.registry.keys := mem_keys_of_lists distinct hc hd hr hlists
  refine ⟨_, _, hyields.find?_model hd hmodel hr, hyields.find?_model hi rfl hreached, ?_⟩
  intro key q hq
  have hown := describes_compose_of_kept kept hi (config.choice (Declaration.interface i).name) key
  rw [hq] at hown
  cases hg : (Entries.ofPairs (Scope.listedFields { declarations := ds } (.interface i))).lookup key with
  | none =>
    rw [hg] at hown
    cases hown
  | some g =>
    rw [hg] at hown
    cases hown with
    | some hq =>
      have hlisted := (Entries.mem_putAll (Entries.mem_of_lookup hg)).resolve_right List.not_mem_nil
      have hmerged := mem_keys_merged_of_listed hfound (Entries.mem_keys_of_mem hlisted)
      have hkey : key ∈ (Scope.listedFields { declarations := ds } d).keys :=
        Scope.mem_keys_listedFields.mpr (.inl ⟨i.name, by rw [hlist]; exact List.mem_cons_self, hmerged⟩)
      obtain ⟨f, hf⟩ := Entries.exists_lookup (Entries.mem_keys_ofPairs.mpr hkey)
      have hinherited := describes_compose_of_kept kept hd (config.choice d.name) key
      rw [hf] at hinherited
      generalize (Scope.compose _ _ _).lookup key = property at hinherited ⊢
      cases hinherited with
      | @some _ p hp =>
        refine ⟨p, rfl, fun hnew hundisputed => ?_⟩
        have hsame := lookup_merged_of_undisputed hfound hundisputed hg
        rw [← lookup_listedFields_single hlist hnew, hf] at hsame
        rw [Option.some.inj hsame] at hp
        exact (hp.eq_or_redecided hq).imp_right fun hredecided => ⟨_, hredecided⟩

/-- Two interfaces that both implement a third one: its field comes by both of them. -/
theorem compile_inherits_shared :
    let node : RecordDeclaration := ⟨"Node", [⟨"id", .nonNull (.named "ID"), .unknown⟩], []⟩
    let named : RecordDeclaration := ⟨"Named", [⟨"name", .named "String", .unknown⟩], ["Node"]⟩
    let aged : RecordDeclaration := ⟨"Aged", [⟨"age", .named "Int", .unknown⟩], ["Node"]⟩
    let person : RecordDeclaration := ⟨"Person", [], ["Named", "Aged"]⟩
    let user : RecordDeclaration := ⟨"User", [⟨"email", .named "ID", .unknown⟩], ["Person"]⟩
    let ds : Declarations := { objects := [user], interfaces := [node, named, aged, person] }
    ds.names.Nodup ∧ ds.Kept ∧ .object user ∈ ds.all ∧ .interface person ∈ ds.all ∧
    (Declaration.object user).interfaces = [person.name] ∧ ds.Undisputed person "id" ∧
    ∃ c, ds.compile {} = .ok c ∧ ((Declaration.object user).name ∈ c.registry.keys → ∃ ps qs,
      c.registry.find? (Declaration.object user).name =
        some (.model ⟨(Declaration.object user).name, ps, true⟩) ∧
      c.registry.find? person.name = some (.model ⟨person.name, qs, true⟩) ∧
      ∀ key q, qs.lookup key = some q → ∃ p, ps.lookup key = some p ∧
        (key ∉ (Declaration.object user).fields.map Field.name → ds.Undisputed person key →
          p = q ∨ ∃ f : Field, f.Redecided p q)) := by
  intro node named aged person user ds
  have distinct : ds.names.Nodup := by decide
  have unset : ds.Unset := by simp [Unset, ds, all, Declaration.fields, node, named, aged, person, user]
  have kept : ds.Kept := kept_of_knows distinct unset (by decide)
  have hundisputed : ds.Undisputed person "id" := by
    refine .alike ⟨"id", .nonNull (.named "ID"), .unknown⟩ fun e he g hg hname => ?_
    have hnamed : Scope.lineage { declarations := ds } "Named" = [node, named] := by cbv
    have haged : Scope.lineage { declarations := ds } "Aged" = [node, aged] := by cbv
    obtain ⟨name, hlisted, j, rfl, hj⟩ := implements_iff.mp he
    have hcases : j = node ∨ j = named ∨ j = aged := by
      obtain rfl | rfl : name = "Named" ∨ name = "Aged" := by
        simpa [Declaration.interfaces, person] using hlisted
      · rw [hnamed] at hj
        simp only [List.mem_cons, List.not_mem_nil, or_false] at hj
        exact hj.imp_right .inl
      · rw [haged] at hj
        simp only [List.mem_cons, List.not_mem_nil, or_false] at hj
        exact hj.imp_right .inr
    rcases hcases with rfl | rfl | rfl
    · simpa [Declaration.fields, node] using hg
    · obtain rfl : g = ⟨"name", .named "String", .unknown⟩ := by
        simpa [Declaration.fields, named] using hg
      exact absurd hname (by decide)
    · obtain rfl : g = ⟨"age", .named "Int", .unknown⟩ := by
        simpa [Declaration.fields, aged] using hg
      exact absurd hname (by decide)
  have hd : Declaration.object user ∈ ds.all := by simp [ds, all]
  have hi : Declaration.interface person ∈ ds.all := by simp [ds, all]
  exact ⟨distinct, kept, hd, hi, rfl, hundisputed, compile_inherits distinct kept hd hi rfl {}⟩

/-- A field that only the first of two interfaces declares again: their own model has the one that both of
them inherit, and an object that lists the model has the new one. -/
theorem compile_inherits_diamond :
    let object : RecordDeclaration := ⟨"T", [⟨"w", .named "Int", .unknown⟩], ["I"]⟩
    let ds : Declarations :=
      { objects := [object]
        interfaces := [⟨"C", [⟨"x", .named "String", .unknown⟩], []⟩,
          ⟨"A", [⟨"x", .named "Int", .unknown⟩], ["C"]⟩, ⟨"B", [⟨"y", .named "Int", .unknown⟩], ["C"]⟩,
          ⟨"I", [⟨"z", .named "Int", .unknown⟩], ["A", "B"]⟩] }
    ds.names.Nodup ∧ (∀ d ∈ ds.all, ∀ f ∈ d.fields, ds.knows f.typeName = true) ∧
      "x" ∉ object.fields.map Field.name ∧
      ∃ c ps qs, ds.compile {} = .ok c ∧ c.registry.find? "T" = some (.model ⟨"T", ps, true⟩) ∧
        c.registry.find? "I" = some (.model ⟨"I", qs, true⟩) ∧
        ps.lookup "x" = some (.maybeNull .number) ∧ qs.lookup "x" = some (.maybeNull .string) := by
  intro object ds
  let ps : Entries Descriptor :=
    [("x", .maybeNull .number), ("y", .maybeNull .number), ("z", .maybeNull .number),
      ("w", .maybeNull .number)]
  let qs : Entries Descriptor :=
    [("x", .maybeNull .string), ("y", .maybeNull .number), ("z", .maybeNull .number)]
  let a : RecordDeclaration := ⟨"A", [⟨"x", .named "Int", .primitive⟩], ["C"]⟩
  let b : RecordDeclaration := ⟨"B", [⟨"y", .named "Int", .primitive⟩], ["C"]⟩
  let c : RecordDeclaration := ⟨"C", [⟨"x", .named "String", .primitive⟩], []⟩
  let i : RecordDeclaration := ⟨"I", [⟨"z", .named "Int", .primitive⟩], ["A", "B"]⟩
  let interface : RecordDeclaration := ⟨"I", [⟨"z", .named "Int", .unknown⟩], ["A", "B"]⟩
  have distinct : ds.names.Nodup := by decide
  have unset : ds.Unset := by simp [Unset, ds, all, Declaration.fields, object]
  have hobject : .object object ∈ ds.all := by simp [ds, all]
  have hinterface : .interface interface ∈ ds.all := by simp [ds, all, interface]
  have hline : (ds.resolve (.object object)).interfaces.map
      (Scope.lineage { declarations := ds.resolveKinds }) = [[c, a, b, i]] := by cbv
  have hlines : (ds.resolve (.interface interface)).interfaces.map
      (Scope.lineage { declarations := ds.resolveKinds }) = [[c, a], [c, b]] := by cbv
  obtain ⟨compiled, hc, hyields⟩ := yields_compile distinct {}
  have hclosed := closed_compile distinct unset hc
  have hT := hclosed.roots _ hobject (by decide) (by decide)
  have hI := hclosed.interfaces _ hobject hT "I" List.mem_cons_self (by decide)
  exact ⟨distinct, by decide, by decide, compiled, ps, qs, hc,
    hyields.find?_composeAlong hobject rfl hT hline,
    hyields.find?_composeAlong hinterface rfl hI hlines, rfl, rfl⟩

end Declarations

end CheckedModels
