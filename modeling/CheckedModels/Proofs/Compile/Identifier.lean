import CheckedModels.Proofs.Compile.Reached
import CheckedModels.Proofs.Compile.Supply
import CheckedModels.Proofs.Declaration.Kinds
import Mathlib.Logic.Relation

/-! The identifier of a compiled model: which field it is, and which fields it may be. -/
namespace CheckedModels

/-- Only a field that the settings permit holds the claim. -/
structure Claim.Permitted (choice : IdentifierChoice) (c : Claim) : Prop where
  choice_eq : c.choice = choice
  holder : ∀ name, c.holder = some name → choice.permits name = true

theorem Claim.Permitted.take {choice : IdentifierChoice} {c : Claim} (h : c.Permitted choice)
    (name : String) : (c.take name).2.Permitted choice := by
  cases hh : c.holder with
  | some holder =>
    rw [take_of_holder hh]
    exact h
  | none =>
    by_cases hp : c.choice.permits name = true
    · simp only [Claim.take, hh, if_pos hp]
      refine ⟨h.choice_eq, fun other hother => ?_⟩
      obtain rfl : name = other := Option.some.inj hother
      rw [← h.choice_eq, hp]
    · simp only [Claim.take, hh, if_neg hp]
      exact h

namespace Scope

variable {s : Scope} {choice : IdentifierChoice}

theorem claim_addField (c : Composition) (f : Field) : (s.addField c f).claim =
    if f.isIdentifierCandidate then (c.claim.take f.name).2 else c.claim := by
  unfold addField Composition.add
  split
  · rw [Claim.describe_eq]
  · split <;> rfl

theorem permitted_addField {c : Composition} (h : c.claim.Permitted choice) (f : Field) :
    (s.addField c f).claim.Permitted choice := by
  rw [claim_addField]
  split
  · exact h.take f.name
  · exact h

theorem permitted_ownProperties (fields : List Field) :
    (s.ownProperties choice fields).claim.Permitted choice :=
  List.foldlRecOn fields s.addField (motive := fun c => c.claim.Permitted choice) ⟨rfl, by simp⟩
    fun _ hc f _ => permitted_addField hc f

theorem permitted_addInherited {own : Entries Descriptor} {c : Composition}
    (h : c.claim.Permitted choice) (f : Field) : (s.addInherited own c f).claim.Permitted choice := by
  unfold addInherited
  split
  · exact h
  · exact permitted_addField h f

theorem permitted_addInterface {own : Entries Descriptor} {c : Composition}
    (h : c.claim.Permitted choice) (name : String) :
    (s.addInterface own c name).claim.Permitted choice := by
  unfold addInterface
  split
  · refine List.foldlRecOn _ _ (motive := fun c : Composition => c.claim.Permitted choice) h ?_
    exact fun _ hc e _ => permitted_addInherited hc e.2
  · exact h

theorem permitted_finalClaim (d : Declaration) : (s.finalClaim choice d).Permitted choice :=
  List.foldlRecOn d.interfaces _ (motive := fun c : Composition => c.claim.Permitted choice)
    (permitted_ownProperties d.fields) fun _ hc name _ => permitted_addInterface hc name

theorem claim_foldl_addField {fields : List Field}
    (h : ∀ f ∈ fields, (f.isIdentifierCandidate && choice.permits f.name) = false) {c : Composition}
    (hc : c.claim = ⟨choice, none⟩) : (fields.foldl s.addField c).claim = ⟨choice, none⟩ := by
  refine List.foldlRecOn fields s.addField (motive := fun c => c.claim = ⟨choice, none⟩) hc ?_
  intro c hc f hf
  rw [claim_addField, hc]
  cases hcandidate : f.isIdentifierCandidate with
  | false => rfl
  | true =>
    have hpermits : choice.permits f.name = false := by simpa [hcandidate] using h f hf
    simp [Claim.take, hpermits]

theorem lookup_addField_of_ne {c : Composition} {f : Field} {key : String} (h : key ≠ f.name) :
    (s.addField c f).properties.lookup key = c.properties.lookup key := by
  unfold addField Composition.add
  split
  · exact Entries.lookup_put_of_ne _ _ h
  · split
    · exact Entries.lookup_put_of_ne _ _ h
    · rfl

theorem lookup_foldl_addField {fields : List Field} {key : String} (h : key ∉ fields.map Field.name)
    (c : Composition) : (fields.foldl s.addField c).properties.lookup key = c.properties.lookup key := by
  refine List.foldlRecOn fields s.addField
    (motive := fun other => other.properties.lookup key = c.properties.lookup key) rfl ?_
  intro other hother f hf
  rw [lookup_addField_of_ne, hother]
  rintro rfl
  exact h (List.mem_map_of_mem hf)

/-- Among own fields of distinct names, the first that may be the identifier is. -/
theorem lookup_ownProperties {fields : List Field} {f : Field} (distinct : (fields.map Field.name).Nodup)
    (h : fields.find? (fun f => f.isIdentifierCandidate && choice.permits f.name) = some f) :
    (s.ownProperties choice fields).properties.lookup f.name = some .identifier := by
  obtain ⟨hf, before, after, rfl, hbefore⟩ := List.find?_eq_some_iff_append.mp h
  obtain ⟨hcandidate, hpermits⟩ := Bool.and_eq_true_iff.mp hf
  have hafter : f.name ∉ after.map Field.name := by
    rw [List.map_append, List.map_cons] at distinct
    exact (List.nodup_cons.mp (List.nodup_append.mp distinct).2.1).1
  have hclaim : (before.foldl s.addField ⟨⟨choice, none⟩, []⟩).claim = ⟨choice, none⟩ :=
    claim_foldl_addField (fun g hg => by simpa only [Bool.not_eq_true'] using hbefore g hg) rfl
  rw [ownProperties, List.foldl_append, List.foldl_cons, lookup_foldl_addField hafter]
  simp [addField, Composition.add, hcandidate, Claim.describe_eq, hclaim, Claim.take, hpermits,
    Entries.lookup_put_self]

theorem Describes.isIdentifierCandidate {f : Field} (h : s.Describes f .identifier) :
    f.isIdentifierCandidate = true := by
  generalize hd : Descriptor.identifier = d at h
  cases h with
  | identifier hf => exact hf
  | plain hf => exact hf
  | resolved _ hr =>
    subst hd
    exact absurd (s.isIdentifier_resolve? hr) (by simp [Descriptor.isIdentifier])

end Scope

namespace Declarations

def Lists (ds : Declarations) (d i : Declaration) : Prop :=
  ∃ name ∈ d.interfaces, ds.findKind? .interface name = some i

/-- The interfaces of a declaration, directly or through others. -/
def Implements (ds : Declarations) : Declaration → Declaration → Prop := Relation.TransGen ds.Lists

variable {ds : Declarations}

theorem lists_of_interface? {d : Declaration} {name : String} (hname : name ∈ d.interfaces)
    {i : RecordDeclaration} (h : Scope.interface? { declarations := ds } name = some i) :
    ds.Lists d (.interface i) := by
  refine ⟨name, hname, ?_⟩
  unfold Scope.interface? at h
  split at h
  · next found =>
    rw [found, Option.some.inj h]
  · simp at h

/-- The fields that come from an interface are declared by it, or by one that it implements. -/
theorem exists_implements_of_mem_mergedFields {d : Declaration} {name : String}
    (hname : name ∈ d.interfaces) {e : String × Field}
    (he : e ∈ Scope.mergedFields { declarations := ds } name) :
    ∃ i, ds.Implements d i ∧ e.2 ∈ i.fields := by
  obtain ⟨i, hi, hf⟩ := Scope.exists_lineage_of_mem_mergedFields he
  refine ⟨.interface i, ?_, hf⟩
  refine Scope.forall_lineageFrom (P := fun i => ds.Implements d (.interface i)) ?_ ?_ (by simp) i hi
  · intro j hj other hother k hk
    exact hj.tail (lists_of_interface? hother hk)
  · intro other hother j hj
    obtain rfl : other = name := by simpa using hother
    exact .single (lists_of_interface? hname hj)

/-- Every field behind a property is declared by the model, or by an interface that it implements. -/
theorem exists_field_of_lookup_composedFields {d : Declaration} {key : String} {g : Field}
    (h : (Scope.composedFields { declarations := ds.resolveKinds } (ds.resolve d)).lookup key = some g) :
    ∃ e f, (e = d ∨ ds.Implements d e) ∧ f ∈ e.fields ∧ f.name = key ∧ ds.resolveField f = g := by
  have hmem := (Entries.mem_putAll (Entries.mem_of_lookup h)).resolve_right List.not_mem_nil
  rcases List.mem_append.mp (List.mem_filter.mp hmem).1 with hinherited | hown
  · obtain ⟨name, hname, hg⟩ := List.mem_flatMap.mp hinherited
    rw [interfaces_resolve] at hname
    rw [mergedFields_resolveKinds] at hg
    obtain ⟨e, he, heq⟩ := List.mem_map.mp hg
    obtain ⟨rfl, rfl⟩ := Prod.mk.inj heq
    obtain ⟨i, hi, hf⟩ := exists_implements_of_mem_mergedFields hname he
    exact ⟨i, e.2, .inr hi, hf, (Scope.name_of_mem_mergedFields _ he).symm, rfl⟩
  · obtain ⟨g', hg', heq⟩ := List.mem_map.mp hown
    obtain ⟨rfl, rfl⟩ := Prod.mk.inj heq
    rw [fields_resolve] at hg'
    obtain ⟨f, hf, rfl⟩ := List.mem_map.mp hg'
    exact ⟨d, f, .inl rfl, hf, (name_resolveField ds f).symm, rfl⟩

/-- A model has one identifier at most. It is a field of its own or of an interface that it implements,
a single value whose type is `ID`, and nothing that the settings rule out. A field of its own comes
first. -/
structure Identified (ds : Declarations) (choice : IdentifierChoice) (d : Declaration) (m : Model) :
    Prop where
  single : (Model.identifierKeys m.properties).length ≤ 1
  declared : ∀ key, m.identifier? = some key → ∃ e f, (e = d ∨ ds.Implements d e) ∧ f ∈ e.fields ∧
    f.name = key ∧ (ds.resolveField f).kind = .identifier ∧ f.isList = false ∧
      (Scope.composedFields { declarations := ds.resolveKinds } (ds.resolve d)).lookup key =
        some (ds.resolveField f)
  disabled : choice = .disabled → m.identifier? = none
  chosen : ∀ name, choice = .field name → ∀ key, m.identifier? = some key → .whole key = name
  own : (d.fields.map Field.name).Nodup → ∀ f, d.fields.find? (fun f =>
    ((ds.resolveField f).kind == .identifier && !f.isList) && choice.permits f.name) = some f →
      m.identifier? = some f.name

theorem isIdentifierCandidate_resolveField (f : Field) : (ds.resolveField f).isIdentifierCandidate =
    ((ds.resolveField f).kind == .identifier && !f.isList) := by
  rw [Field.isIdentifierCandidate, Field.isList, Field.isList, Field.listDepth, Field.listDepth,
    type_resolveField]

/-- The first field that may be the identifier, before its kind is filled in and after. -/
theorem find?_map_resolveField {fields : List Field} {choice : IdentifierChoice} {f : Field}
    (h : fields.find? (fun f => ((ds.resolveField f).kind == .identifier && !f.isList) &&
      choice.permits f.name) = some f) :
    (fields.map ds.resolveField).find? (fun f => f.isIdentifierCandidate && choice.permits f.name) =
      some (ds.resolveField f) := by
  rw [List.find?_map]
  simp only [Function.comp_def, isIdentifierCandidate_resolveField, name_resolveField, h]
  rfl

theorem identified_compose (ds : Declarations) (choice : IdentifierChoice) (d : Declaration) :
    ds.Identified choice d
      ⟨d.name, Scope.compose { declarations := ds.resolveKinds } choice (ds.resolve d), true⟩ := by
  let s : Scope := { declarations := ds.resolveKinds }
  let m : Model := ⟨d.name, s.compose choice (ds.resolve d), true⟩
  have hsingle : (Model.identifierKeys m.properties).length ≤ 1 := s.length_identifierKeys_compose _ _
  have hlookup : ∀ key, m.identifier? = some key ↔ m.properties.lookup key = some .identifier := by
    intro key
    rw [Model.identifier?_eq_some_iff hsingle]
    exact ⟨Entries.lookup_of_mem (s.nodup_keys_compose _ _), Entries.mem_of_lookup⟩
  have hpermits : ∀ key, m.identifier? = some key → choice.permits key = true := fun key hkey =>
    (s.permitted_finalClaim (ds.resolve d)).holder key
      (s.holder_of_mem_identifierKeys (List.mem_of_head? hkey))
  refine ⟨hsingle, fun key hkey => ?_, ?_, ?_, fun distinct f hf => ?_⟩
  · have hsupplied := s.supplies_compose choice (ds.resolve d) key List.not_mem_nil
    rw [(hlookup key).mp hkey] at hsupplied
    cases hfield : (s.composedFields (ds.resolve d)).lookup key with
    | none => simp [hfield] at hsupplied
    | some g =>
      rw [hfield] at hsupplied
      cases hsupplied with
      | some hdescribes =>
        obtain ⟨e, f, he, hf, hname, rfl⟩ := exists_field_of_lookup_composedFields hfield
        have hcandidate := hdescribes.isIdentifierCandidate
        rw [isIdentifierCandidate_resolveField] at hcandidate
        obtain ⟨hkind, hlist⟩ : (ds.resolveField f).kind = .identifier ∧ f.isList = false := by
          simpa using hcandidate
        exact ⟨e, f, he, hf, hname, hkind, hlist, rfl⟩
  · rintro rfl
    refine Option.eq_none_iff_forall_ne_some.mpr fun key hkey => ?_
    simpa [IdentifierChoice.permits] using hpermits key hkey
  · rintro name rfl key hkey
    have hchosen : name = .whole key := by simpa [IdentifierChoice.permits] using hpermits key hkey
    exact hchosen.symm
  · have hown := s.lookup_ownProperties (by simpa [Function.comp_def] using distinct)
      (find?_map_resolveField hf)
    rw [← fields_resolve, name_resolveField] at hown
    exact (hlookup f.name).mpr (s.lookup_compose_of_own hown)

/-- Every model of a compiled schema has its identifier as the settings and its declaration have it. -/
theorem compile_identified (ds : Declarations) (config : Config) : ∃ c, ds.compile config = .ok c ∧
    ∀ name m, c.registry.find? name = some (.model m) →
      ∃ d, ds.findKind? d.kind name = some d ∧ m.name = name ∧
        ds.Identified (config.choice name) d m := by
  obtain ⟨c, hc, hfind⟩ := ds.find?_compile config
  refine ⟨c, hc, fun name m hm => ?_⟩
  rw [hfind] at hm
  obtain ⟨e, he, hcontent⟩ := Option.map_eq_some_iff.mp hm
  have hfound := ds.resolveKinds.sound_ofRoots.found _ (Entries.mem_of_lookup he)
  rw [findKind?_resolveKinds] at hfound
  obtain ⟨d, hd, rfl⟩ := Option.map_eq_some_iff.mp hfound
  rw [kind_resolve] at hd
  obtain ⟨-, rfl, -⟩ := findKind?_mem hd
  have hmodel : m = ⟨d.name, Scope.compose { declarations := ds.resolveKinds } (config.choice d.name)
      (ds.resolve d), true⟩ := by
    cases d <;> cases hcontent <;> rfl
  subst hmodel
  exact ⟨d, hd, rfl, ds.identified_compose _ d⟩

end Declarations

end CheckedModels
