import CheckedModels.Proofs.Compile.Identifier
import CheckedModels.Proofs.Compile.Precedence

/-! Which field comes to the identifier first, and what becomes of the properties when it has it. The first
field that may claim the identifier holds it, even where another field of its name takes its place. -/
namespace CheckedModels

/-- Whether a field may take an identifier that is free. -/
def Field.mayClaim (choice : IdentifierChoice) (f : Field) : Bool :=
  f.isIdentifierCandidate && choice.permits f.name

namespace Scope

/-- What a field is as a property while this name holds the identifier. -/
def property? (s : Scope) (holder : Option String) (f : Field) : Option Descriptor :=
  if f.isIdentifierCandidate then
    some (if holder = some f.name then .identifier else f.plainIdentifier)
  else s.resolve? f

/-- Fields under their names, as far as they are kept. -/
def keptPairs (s : Scope) (fields : List Field) : Entries Field :=
  (fields.map fun f => (f.name, f)).filter fun e => s.keeps e.2

variable {s : Scope} {choice : IdentifierChoice}

theorem property?_congr {holder other : Option String} {f : Field}
    (h : holder = some f.name ↔ other = some f.name) : s.property? holder f = s.property? other f := by
  unfold property?
  simp only [h]

theorem keptPairs_append (a b : List Field) : s.keptPairs (a ++ b) = s.keptPairs a ++ s.keptPairs b := by
  simp [keptPairs]

theorem name_of_lookup_keptPairs {fields : List Field} {key : String} {f : Field}
    (h : (Entries.ofPairs (s.keptPairs fields)).lookup key = some f) : f.name = key := by
  have hmem := (Entries.mem_putAll (Entries.mem_of_lookup h)).resolve_right List.not_mem_nil
  obtain ⟨g, -, hg⟩ := List.mem_map.mp (List.mem_filter.mp hmem).1
  obtain ⟨hname, rfl⟩ := Prod.mk.inj hg
  exact hname

theorem claim_addField_eq (c : Composition) (f : Field) : (s.addField c f).claim =
    ⟨c.claim.choice, c.claim.holder.or (if f.mayClaim c.claim.choice then some f.name else none)⟩ := by
  rw [claim_addField]
  obtain ⟨⟨choice, holder⟩, properties⟩ := c
  cases hf : f.isIdentifierCandidate with
  | false => simp [Field.mayClaim, hf]
  | true =>
    cases holder with
    | some holder => simp [Claim.take]
    | none => by_cases hp : choice.permits f.name = true <;> simp [Claim.take, Field.mayClaim, hf, hp]

/-- The first field that may claim a free identifier holds it from then on. -/
theorem claim_foldl (fields : List Field) (c : Composition) : (fields.foldl s.addField c).claim =
    ⟨c.claim.choice,
      c.claim.holder.or ((fields.find? (Field.mayClaim c.claim.choice)).map Field.name)⟩ := by
  induction fields generalizing c with
  | nil => simp
  | cons f rest ih =>
    rw [List.foldl_cons, ih, claim_addField_eq, List.find?_cons]
    cases hf : f.mayClaim c.claim.choice <;> cases c.claim.holder <;> simp

/-- What a field does to the property under a key, by the claim as it is with the field. -/
theorem lookup_addField (c : Composition) (f : Field) (key : String) :
    (s.addField c f).properties.lookup key =
      if s.keeps f = true ∧ key = f.name then s.property? (s.addField c f).claim.holder f
      else c.properties.lookup key := by
  by_cases hkey : key = f.name
  · subst hkey
    rw [claim_addField_eq]
    obtain ⟨⟨choice, holder⟩, properties⟩ := c
    unfold addField Composition.add keeps property?
    cases hf : f.isIdentifierCandidate with
    | false => cases hr : s.resolve? f <;> simp [Entries.lookup_put_self]
    | true =>
      cases holder with
      | some holder => simp [Claim.describe_eq, Claim.take, Entries.lookup_put_self]
      | none =>
        by_cases hp : choice.permits f.name = true <;>
          simp [Claim.describe_eq, Claim.take, Entries.lookup_put_self, Field.mayClaim, hf, hp]
  · rw [lookup_addField_of_ne hkey, if_neg fun h => hkey h.2]

/-- The last kept field of a name is behind the property, as the claim in the end has it. -/
theorem lookup_foldl_addField_eq (fields : List Field) (claim : Claim) (key : String) :
    (fields.foldl s.addField ⟨claim, []⟩).properties.lookup key =
      ((Entries.ofPairs (s.keptPairs fields)).lookup key).bind
        (s.property? (fields.foldl s.addField ⟨claim, []⟩).claim.holder) := by
  induction fields using List.reverseRecOn with
  | nil => rfl
  | append_singleton fields f ih =>
    let c := fields.foldl s.addField ⟨claim, []⟩
    have hpairs : (Entries.ofPairs (s.keptPairs (fields ++ [f]))).lookup key =
        if s.keeps f = true ∧ key = f.name then some f
        else (Entries.ofPairs (s.keptPairs fields)).lookup key := by
      rw [keptPairs_append, Entries.ofPairs, Entries.putAll_append]
      by_cases hf : s.keeps f = true
      · simp only [keptPairs, List.map_cons, List.map_nil, hf, List.filter_cons_of_pos,
          List.filter_nil, Entries.putAll_cons, true_and]
        exact Entries.lookup_put _ f.name key f
      · simp [keptPairs, hf, Entries.putAll, Entries.ofPairs]
    rw [List.foldl_append, List.foldl_cons, List.foldl_nil, lookup_addField, hpairs]
    split
    · rfl
    · next hother =>
      rw [ih]
      cases hg : (Entries.ofPairs (s.keptPairs fields)).lookup key with
      | none => rfl
      | some g =>
        -- The field may take the identifier, but then it has another name.
        have hname : g.name = key := name_of_lookup_keptPairs hg
        refine property?_congr ?_
        rw [claim_addField_eq]
        by_cases hf : f.mayClaim c.claim.choice = true
        · have hkept : s.keeps f = true := by
            simp [keeps, (Bool.and_eq_true_iff.mp hf).1]
          have hne : f.name ≠ g.name := fun heq => hother ⟨hkept, by rw [← hname, heq]⟩
          rw [if_pos hf]
          cases c.claim.holder <;> simp [hne]
        · rw [if_neg hf, Option.or_none]

def inheritedFields (s : Scope) (d : Declaration) : List Field :=
  ((d.interfaces.flatMap s.mergedFields).map Prod.snd).filter fun f => !(s.ownNames d).contains f.name

/-- What a model overrides is left alone. -/
theorem foldl_addInherited (own : Entries Descriptor) (fields : List Field) {c a : Composition}
    (hclaim : c.claim = a.claim)
    (hlookup : ∀ key, key ∉ own.keys → c.properties.lookup key = a.properties.lookup key) :
    (fields.foldl (s.addInherited own) c).claim =
        ((fields.filter fun f => !own.keys.contains f.name).foldl s.addField a).claim ∧
      ∀ key, key ∉ own.keys → (fields.foldl (s.addInherited own) c).properties.lookup key =
        ((fields.filter fun f => !own.keys.contains f.name).foldl s.addField a).properties.lookup key := by
  induction fields generalizing c a with
  | nil => exact ⟨hclaim, hlookup⟩
  | cons f rest ih =>
    rw [List.foldl_cons]
    cases hl : own.lookup f.name with
    | some d =>
      have hmem : f.name ∈ own.keys := Entries.mem_keys_of_mem (Entries.mem_of_lookup hl)
      have hadd : s.addInherited own c f = { c with properties := c.properties.put f.name d } := by
        simp [addInherited, hl]
      rw [List.filter_cons_of_neg (by simpa using hmem), hadd]
      refine ih hclaim fun key hkey => ?_
      have hne : key ≠ f.name := fun heq => hkey (heq ▸ hmem)
      rw [← hlookup key hkey]
      exact Entries.lookup_put_of_ne _ d hne
    | none =>
      have hmem : f.name ∉ own.keys := Entries.lookup_eq_none_iff.mp hl
      have hadd : s.addInherited own c f = s.addField c f := by simp [addInherited, hl]
      have hnext : (s.addField c f).claim = (s.addField a f).claim := by
        rw [claim_addField_eq, claim_addField_eq, hclaim]
      rw [List.filter_cons_of_pos (by simpa using hmem), hadd, List.foldl_cons]
      refine ih hnext fun key hkey => ?_
      rw [lookup_addField, lookup_addField, hnext, hlookup key hkey]

theorem mem_keys_ownProperties_iff {d : Declaration} {key : String} :
    key ∈ (s.ownProperties choice d.fields).properties.keys ↔ key ∈ s.ownNames d :=
  s.mem_keys_ownProperties

/-- The fields that come to the identifier, in their order: the fields of a model itself, and then those
of its interfaces that it does not override. -/
def claimants (s : Scope) (d : Declaration) : List Field := d.fields ++ s.inheritedFields d

/-- The first field that may claim the identifier. -/
def claimant? (s : Scope) (choice : IdentifierChoice) (d : Declaration) : Option Field :=
  (s.claimants d).find? (Field.mayClaim choice)

theorem inherited_eq (choice : IdentifierChoice) (d : Declaration) :
    let own := s.ownProperties choice d.fields
    let inherited := d.interfaces.foldl (s.addInterface own.properties) ⟨own.claim, []⟩
    inherited.claim = ((s.inheritedFields d).foldl s.addField ⟨own.claim, []⟩).claim ∧
      ∀ key, key ∉ s.ownNames d → inherited.properties.lookup key =
        ((s.inheritedFields d).foldl s.addField ⟨own.claim, []⟩).properties.lookup key := by
  intro own inherited
  have hown : ∀ name, own.properties.keys.contains name = (s.ownNames d).contains name := by
    intro name
    rw [Bool.eq_iff_iff, List.contains_iff_mem, List.contains_iff_mem]
    exact mem_keys_ownProperties_iff
  let fields := (d.interfaces.flatMap s.mergedFields).map Prod.snd
  have hsplit := s.foldl_addInherited own.properties fields (c := ⟨own.claim, []⟩) rfl fun _ _ => rfl
  have hflat : inherited = fields.foldl (s.addInherited own.properties) ⟨own.claim, []⟩ :=
    s.foldl_addInterface _ _ _
  simp only [hown] at hsplit
  rw [hflat]
  exact ⟨hsplit.1, fun key hkey => hsplit.2 key fun hmem => hkey (mem_keys_ownProperties_iff.mp hmem)⟩

theorem claim_ownProperties (choice : IdentifierChoice) (fields : List Field) :
    (s.ownProperties choice fields).claim =
      ⟨choice, (fields.find? (Field.mayClaim choice)).map Field.name⟩ := by
  rw [ownProperties, claim_foldl]
  simp

/-- The first field that may claim the identifier holds it in the end. -/
theorem finalClaim_eq (choice : IdentifierChoice) (d : Declaration) :
    s.finalClaim choice d = ⟨choice, (s.claimant? choice d).map Field.name⟩ := by
  have hfinal := (s.inherited_eq choice d).1
  rw [finalClaim, hfinal, claim_foldl, claim_ownProperties, claimant?, claimants, List.find?_append]
  cases d.fields.find? (Field.mayClaim choice) <;> simp

theorem keptPairs_filter (fields : List Field) (p : Field → Bool) :
    s.keptPairs (fields.filter p) = (s.keptPairs fields).filter fun e => p e.2 := by
  rw [keptPairs, keptPairs, List.filter_filter, List.filter_map, List.filter_map, List.filter_filter]
  simp [Function.comp_def, Bool.and_comm]

theorem keys_keptPairs_fields (d : Declaration) : (s.keptPairs d.fields).keys = s.ownNames d := by
  simp [keptPairs, ownNames, Entries.keys, List.filter_map, Function.comp_def]

theorem keptPairs_merged (d : Declaration) :
    s.keptPairs ((d.interfaces.flatMap s.mergedFields).map Prod.snd) =
      (d.interfaces.flatMap s.mergedFields).filter fun e => s.keeps e.2 := by
  have hpairs : ((d.interfaces.flatMap s.mergedFields).map Prod.snd).map (fun f => (f.name, f)) =
      d.interfaces.flatMap s.mergedFields := by
    rw [List.map_map]
    refine (List.map_congr_left fun e he => ?_).trans (List.map_id _)
    obtain ⟨name, -, he⟩ := List.mem_flatMap.mp he
    exact Prod.ext (s.name_of_mem_mergedFields he).symm rfl
  rw [keptPairs, hpairs]

/-- The field behind a property, with the fields of the model itself apart. -/
theorem lookup_composedFields_eq (d : Declaration) (key : String) :
    (s.composedFields d).lookup key = if key ∈ s.ownNames d
      then (Entries.ofPairs (s.keptPairs d.fields)).lookup key
      else (Entries.ofPairs (s.keptPairs (s.inheritedFields d))).lookup key := by
  have hparts : s.composedFields d = Entries.putAll (Entries.ofPairs (s.keptPairs
      ((d.interfaces.flatMap s.mergedFields).map Prod.snd))) (s.keptPairs d.fields) := by
    rw [composedFields, listedFields, List.filter_append, Entries.ofPairs, Entries.putAll_append,
      keptPairs_merged]
    rfl
  have hown : ((s.keptPairs d.fields).reverse.lookup key).isSome = true ↔ key ∈ s.ownNames d := by
    rw [Entries.lookup_isSome_iff, ← keys_keptPairs_fields, Entries.keys, Entries.keys,
      List.map_reverse, List.mem_reverse]
  rw [hparts, Entries.lookup_putAll, Entries.lookup_ofPairs, Entries.lookup_ofPairs,
    Entries.lookup_ofPairs]
  split
  · next hkey => rw [Option.or_of_isSome (hown.mpr hkey)]
  · next hkey =>
    have hnone : (s.keptPairs d.fields).reverse.lookup key = none :=
      Option.not_isSome_iff_eq_none.mp fun h => hkey (hown.mp h)
    rw [hnone, Option.none_or, inheritedFields, keptPairs_filter, ← List.filter_reverse]
    refine (Entries.lookup_filter fun e he hname => ?_).symm
    obtain ⟨g, -, rfl⟩ := List.mem_map.mp (List.mem_filter.mp (List.mem_reverse.mp he)).1
    have hnew : g.name ∉ s.ownNames d := fun hmem => hkey (hname ▸ hmem)
    simpa using hnew

/-- A field that a model has itself is not one that an inherited field takes the identifier from. -/
theorem property?_own (choice : IdentifierChoice) (d : Declaration) {f : Field}
    (h : f.name ∈ s.ownNames d) : s.property? ((d.fields.find? (Field.mayClaim choice)).map Field.name) f =
      s.property? ((s.claimant? choice d).map Field.name) f := by
  unfold claimant? claimants
  rw [List.find?_append]
  cases d.fields.find? (Field.mayClaim choice) with
  | some g => rfl
  | none =>
    refine property?_congr ?_
    cases hg : (s.inheritedFields d).find? (Field.mayClaim choice) with
    | none => rfl
    | some g =>
      have hnew : g.name ∉ s.ownNames d := by
        simpa using (List.mem_filter.mp (List.mem_of_find?_eq_some hg)).2
      have hne : g.name ≠ f.name := fun heq => hnew (heq ▸ h)
      simp [hne]

/-- Every property is what the field behind it is while the first that may claim the identifier holds
it. -/
theorem lookup_compose_eq (choice : IdentifierChoice) (d : Declaration) (key : String) :
    (s.compose choice d).lookup key = ((s.composedFields d).lookup key).bind
      (s.property? ((s.claimant? choice d).map Field.name)) := by
  have hdistinct : (s.ownProperties choice d.fields).properties.keys.Nodup :=
    (s.sound_ownProperties choice d.fields).distinct
  have hown : (s.ownProperties choice d.fields).properties.lookup key =
      ((Entries.ofPairs (s.keptPairs d.fields)).lookup key).bind
        (s.property? ((d.fields.find? (Field.mayClaim choice)).map Field.name)) := by
    have hfold := s.lookup_foldl_addField_eq d.fields ⟨choice, none⟩ key
    change _ = Option.bind _ (s.property? (s.ownProperties choice d.fields).claim.holder) at hfold
    rw [claim_ownProperties] at hfold
    exact hfold
  rw [compose, Entries.lookup_putAll_of_nodup hdistinct, lookup_composedFields_eq]
  by_cases hkey : key ∈ s.ownNames d
  · have hsome : ((s.ownProperties choice d.fields).properties.lookup key).isSome = true :=
      Entries.lookup_isSome_iff.mpr (mem_keys_ownProperties_iff.mpr hkey)
    rw [if_pos hkey, Option.or_of_isSome hsome, hown]
    refine Option.bind_congr fun f hf => ?_
    obtain rfl : f.name = key := name_of_lookup_keptPairs hf
    exact property?_own choice d hkey
  · have hnone : (s.ownProperties choice d.fields).properties.lookup key = none :=
      Entries.lookup_eq_none_iff.mpr fun hmem => hkey (mem_keys_ownProperties_iff.mp hmem)
    have hfinal := s.finalClaim_eq choice d
    rw [finalClaim] at hfinal
    rw [if_neg hkey, hnone, Option.none_or, (s.inherited_eq choice d).2 key hkey,
      lookup_foldl_addField_eq, ← (s.inherited_eq choice d).1, hfinal]

theorem name_of_lookup_composedFields {d : Declaration} {key : String} {f : Field}
    (h : (s.composedFields d).lookup key = some f) : f.name = key := by
  rw [lookup_composedFields_eq] at h
  split at h <;> exact name_of_lookup_keptPairs h

/-- What stands behind a property came to the identifier. -/
theorem mem_claimants_of_lookup {d : Declaration} {key : String} {f : Field}
    (h : (s.composedFields d).lookup key = some f) : f ∈ s.claimants d := by
  have hmem : ∀ {fields : List Field},
      (Entries.ofPairs (s.keptPairs fields)).lookup key = some f → f ∈ fields := by
    intro fields hl
    have hpair := (Entries.mem_putAll (Entries.mem_of_lookup hl)).resolve_right List.not_mem_nil
    obtain ⟨g, hg, heq⟩ := List.mem_map.mp (List.mem_filter.mp hpair).1
    exact (Prod.mk.inj heq).2 ▸ hg
  rw [lookup_composedFields_eq] at h
  unfold claimants
  split at h
  · exact List.mem_append_left _ (hmem h)
  · exact List.mem_append_right _ (hmem h)

theorem property?_eq_identifier_iff {holder : Option String} {f : Field} :
    s.property? holder f = some .identifier ↔
      f.isIdentifierCandidate = true ∧ holder = some f.name := by
  unfold property?
  constructor
  · intro h
    split at h
    · next hf =>
      split at h
      · next hholder => exact ⟨hf, hholder⟩
      · have hplain := f.isIdentifier_plainIdentifier
        rw [Option.some.inj h] at hplain
        exact absurd hplain (by decide)
    · exact absurd (isIdentifier_resolve? h) (by decide)
  · rintro ⟨hf, hholder⟩
    rw [if_pos hf, if_pos hholder]

/-- A field that may be an identifier stands behind the property under a key. -/
def SuppliesId (s : Scope) (d : Declaration) (key : String) : Prop :=
  ∃ f, (s.composedFields d).lookup key = some f ∧ f.isIdentifierCandidate = true

/-- The identifier is the property that has the name of the first field that may claim it, as long as a
field that may be an identifier stands behind that property. -/
theorem lookup_compose_eq_identifier_iff {d : Declaration} {key : String} :
    (s.compose choice d).lookup key = some .identifier ↔
      (∃ f, s.claimant? choice d = some f ∧ f.name = key) ∧ s.SuppliesId d key := by
  rw [lookup_compose_eq, Option.bind_eq_some_iff]
  constructor
  · rintro ⟨f, hf, hproperty⟩
    obtain ⟨hcandidate, hholder⟩ := property?_eq_identifier_iff.mp hproperty
    obtain ⟨g, hg, hname⟩ := Option.map_eq_some_iff.mp hholder
    exact ⟨⟨g, hg, hname.trans (name_of_lookup_composedFields hf)⟩, f, hf, hcandidate⟩
  · rintro ⟨⟨g, hg, rfl⟩, f, hf, hcandidate⟩
    have hholder : (s.claimant? choice d).map Field.name = some f.name := by
      rw [hg, name_of_lookup_composedFields hf]
      rfl
    exact ⟨f, hf, property?_eq_identifier_iff.mpr ⟨hcandidate, hholder⟩⟩

/-- Where a permitted field that may be an identifier stands behind a property, some field claims the
identifier. -/
theorem exists_claimant {d : Declaration} {key : String} (h : s.SuppliesId d key)
    (hpermits : choice.permits key = true) : ∃ f, s.claimant? choice d = some f := by
  obtain ⟨f, hf, hcandidate⟩ := h
  have hclaims : f.mayClaim choice = true := by
    rw [Field.mayClaim, hcandidate, name_of_lookup_composedFields hf, hpermits]
    rfl
  refine Option.isSome_iff_exists.mp ?_
  rw [claimant?, List.find?_isSome]
  exact ⟨f, mem_claimants_of_lookup hf, hclaims⟩

end Scope

namespace Declarations

variable {ds : Declarations}

theorem exists_compose_of_find? {config : Config} {r : Registry}
    (hfind : ∀ name, r.find? name =
      ((Survey.ofRoots { declarations := ds.resolveKinds }).reached.lookup name).map
        ((Survey.ofRoots { declarations := ds.resolveKinds }).content
          { declarations := ds.resolveKinds } config))
    {name : String} {m : Model} (hm : r.find? name = some (.model m)) :
    ∃ d, ds.findKind? d.kind name = some d ∧ m = ⟨name,
      Scope.compose { declarations := ds.resolveKinds } (config.choice name) (ds.resolve d), true⟩ := by
  rw [hfind] at hm
  obtain ⟨e, he, hcontent⟩ := Option.map_eq_some_iff.mp hm
  have hfound := ds.resolveKinds.sound_ofRoots.found _ (Entries.mem_of_lookup he)
  rw [findKind?_resolveKinds] at hfound
  obtain ⟨d, hd, rfl⟩ := Option.map_eq_some_iff.mp hfound
  rw [kind_resolve] at hd
  obtain ⟨-, rfl, -⟩ := findKind?_mem hd
  refine ⟨d, hd, ?_⟩
  cases d <;> cases hcontent <;> rfl

/-- Which property of a model is its identifier. The first field that may claim the identifier does, and
where a field that may be none has taken its place since, nothing else gets it. -/
structure Claimed (ds : Declarations) (choice : IdentifierChoice) (d : Declaration) (m : Model) :
    Prop where
  identifier : ∀ key, m.identifier? = some key ↔
    (∃ f, Scope.claimant? { declarations := ds.resolveKinds } choice (ds.resolve d) = some f ∧
      f.name = key) ∧ Scope.SuppliesId { declarations := ds.resolveKinds } (ds.resolve d) key
  complete : ∀ key, Scope.SuppliesId { declarations := ds.resolveKinds } (ds.resolve d) key →
    choice.permits key = true →
      ∃ f, Scope.claimant? { declarations := ds.resolveKinds } choice (ds.resolve d) = some f ∧
        (m.identifier?.isSome = true ↔
          Scope.SuppliesId { declarations := ds.resolveKinds } (ds.resolve d) f.name)

theorem claimed_compose (ds : Declarations) (choice : IdentifierChoice) (d : Declaration)
    (name : String) : ds.Claimed choice d
      ⟨name, Scope.compose { declarations := ds.resolveKinds } choice (ds.resolve d), true⟩ := by
  let s : Scope := { declarations := ds.resolveKinds }
  let m : Model := ⟨name, s.compose choice (ds.resolve d), true⟩
  have hidentifier : ∀ key, m.identifier? = some key ↔
      (∃ f, s.claimant? choice (ds.resolve d) = some f ∧ f.name = key) ∧
        s.SuppliesId (ds.resolve d) key := by
    intro key
    rw [Model.identifier?_eq_some_iff (s.length_identifierKeys_compose _ _),
      ← Scope.lookup_compose_eq_identifier_iff]
    exact ⟨Entries.lookup_of_mem (s.nodup_keys_compose _ _), Entries.mem_of_lookup⟩
  refine ⟨hidentifier, fun key hsupplies hpermits => ?_⟩
  obtain ⟨f, hf⟩ := Scope.exists_claimant hsupplies hpermits
  refine ⟨f, hf, ?_⟩
  constructor
  · intro hsome
    obtain ⟨other, hother⟩ := Option.isSome_iff_exists.mp hsome
    obtain ⟨⟨g, hg, hname⟩, hsupplied⟩ := (hidentifier other).mp hother
    obtain rfl : f = g := Option.some.inj (hf.symm.trans hg)
    rwa [hname]
  · intro hsupplied
    have hown : m.identifier? = some f.name := (hidentifier f.name).mpr ⟨⟨f, hf, rfl⟩, hsupplied⟩
    change m.identifier?.isSome = true
    rw [hown]
    rfl

/-- A model with a permitted property of an ID field has an identifier exactly if the first field that
may claim it still has an ID field behind its property. -/
theorem compile_claimed (ds : Declarations) (config : Config) : ∃ c, ds.compile config = .ok c ∧
    ∀ name m, c.registry.find? name = some (.model m) →
      ∃ d, ds.findKind? d.kind name = some d ∧ m.name = name ∧
        ds.Claimed (config.choice name) d m := by
  obtain ⟨c, hc, hfind⟩ := ds.find?_compile config
  refine ⟨c, hc, fun name m hm => ?_⟩
  obtain ⟨d, hd, rfl⟩ := exists_compose_of_find? hfind hm
  exact ⟨d, hd, rfl, ds.claimed_compose _ d name⟩

/-- An interface that is listed later has a text under the name of the first ID field, and the second
one stays a text all the same. -/
theorem compile_claimed_replaced :
    let d : RecordDeclaration := ⟨"T", [⟨"z", .named "Int", .unknown⟩], ["A", "B"]⟩
    let ds : Declarations :=
      { objects := [d]
        interfaces :=
          [⟨"A", [⟨"x", .named "ID", .unknown⟩, ⟨"y", .named "ID", .unknown⟩], []⟩,
            ⟨"B", [⟨"x", .named "String", .unknown⟩], []⟩] }
    let m : Model :=
      ⟨"T", [("x", .maybeNull .string), ("y", .maybeNull .string), ("z", .maybeNull .number)], true⟩
    ds.names.Nodup ∧
      Scope.SuppliesId { declarations := ds.resolveKinds } (ds.resolve (.object d)) "y" ∧
      (Config.choice {} "T").permits "y" = true ∧
      (∃ c, ds.compile {} = .ok c ∧ c.registry.find? "T" = some (.model m)) ∧
      m.identifier? = none := by
  intro d ds m
  let s : Scope := { declarations := ds.resolveKinds }
  have distinct : ds.names.Nodup := by decide
  have unset : ds.Unset := by simp [Unset, ds, all, Declaration.fields, d]
  have hd : .object d ∈ ds.all := List.mem_cons_self
  have hlines : (ds.resolve (.object d)).interfaces.map s.lineage =
      [[⟨"A", [⟨"x", .named "ID", .identifier⟩, ⟨"y", .named "ID", .identifier⟩], []⟩],
        [⟨"B", [⟨"x", .named "String", .primitive⟩], []⟩]] := by cbv
  have hsupplies : s.SuppliesId (ds.resolve (.object d)) "y" := by
    refine ⟨⟨"y", .named "ID", .identifier⟩, ?_, rfl⟩
    rw [Scope.composedFields, Scope.listedFields, Scope.flatMap_mergedFields hlines]
    rfl
  obtain ⟨c, hc, hyields⟩ := yields_compile distinct {}
  have hT := (closed_compile distinct unset hc).roots _ hd (by decide) (by decide)
  exact ⟨distinct, hsupplies, rfl, ⟨c, hc, hyields.find?_composeAlong hd rfl hT hlines⟩, rfl⟩

end Declarations

end CheckedModels
