import CheckedModels.Proofs.Compile.Claimants
import CheckedModels.Proofs.Compile.Inheritance
import CheckedModels.Proofs.Declaration.Matching

/-! What becomes of a record that lists one more interface, which it implements already through another. -/
namespace CheckedModels

namespace Scope

variable {s t : Scope} {choice : IdentifierChoice} {d e : Declaration} {name : String}

/-- A composition depends on what fields stand for and on what comes from the interfaces that are listed. -/
theorem compose_congr (hresolve : s.resolve? = t.resolve?)
    (hmerged : ∀ name ∈ d.interfaces, s.mergedFields name = t.mergedFields name) :
    s.compose choice d = t.compose choice d := by
  have hadd : s.addField = t.addField := by
    funext c f
    rw [addField, addField, hresolve]
  have hown : s.ownProperties choice d.fields = t.ownProperties choice d.fields := by
    rw [ownProperties, ownProperties, hadd]
  have hinherited : s.addInherited = t.addInherited := by
    funext own c f
    unfold addInherited
    rw [hadd]
  have hinterfaces : ∀ (own : Entries Descriptor) (c : Composition),
      d.interfaces.foldl (s.addInterface own) c = d.interfaces.foldl (t.addInterface own) c := by
    intro own c
    refine List.foldl_ext _ _ _ fun c name hname => ?_
    rw [addInterface_eq, addInterface_eq, hmerged name hname, hinherited]
  rw [compose, compose, hown, hinterfaces]

section Appended

/- The record lists one more interface, after the others. -/
variable (hfields : e.fields = d.fields) (hinterfaces : e.interfaces = d.interfaces ++ [name])

include hfields

theorem ownNames_congr : s.ownNames e = s.ownNames d := by
  rw [ownNames, ownNames, hfields]

include hinterfaces

theorem inheritedFields_appended : s.inheritedFields e = s.inheritedFields d ++
    ((s.mergedFields name).map Prod.snd).filter fun f => !(s.ownNames d).contains f.name := by
  rw [inheritedFields, inheritedFields, ownNames_congr hfields, hinterfaces,
    List.flatMap_append, List.map_append, List.filter_append, List.flatMap_singleton]

/- What comes from the new interface is behind a property already, or the record declares it itself and
another interface has it too. -/
variable (hknown : ∀ p ∈ s.mergedFields name, p.1 ∈ Entries.keys (d.interfaces.flatMap s.mergedFields))
  (hbehind : ∀ key f, (key, f) ∈ s.mergedFields name → key ∉ s.ownNames d →
    (s.composedFields d).lookup key = some f)

include hbehind

theorem claimant?_appended : s.claimant? choice e = s.claimant? choice d := by
  unfold claimant?
  rw [claimants, hfields, inheritedFields_appended hfields hinterfaces, ← List.append_assoc,
    List.find?_append]
  change ((s.claimants d).find? (Field.mayClaim choice)).or _ = _
  cases hfirst : (s.claimants d).find? (Field.mayClaim choice) with
  | some f => rfl
  | none =>
    rw [Option.none_or, List.find?_eq_none]
    intro f hf
    obtain ⟨hmem, hnew⟩ := List.mem_filter.mp hf
    obtain ⟨p, hp, rfl⟩ := List.mem_map.mp hmem
    have hname : p.1 = p.2.name := s.name_of_mem_mergedFields hp
    have hlookup := hbehind p.1 p.2 hp (by simpa [hname] using hnew)
    exact List.find?_eq_none.mp hfirst p.2 (mem_claimants_of_lookup hlookup)

theorem lookup_composedFields_appended (key : String) :
    (s.composedFields e).lookup key = (s.composedFields d).lookup key := by
  rw [lookup_composedFields_eq, ownNames_congr hfields, hfields,
    inheritedFields_appended hfields hinterfaces, keptPairs_append]
  by_cases hkey : key ∈ s.ownNames d
  · rw [if_pos hkey, lookup_composedFields_eq, if_pos hkey]
  · rw [if_neg hkey, Entries.lookup_ofPairs_append]
    cases hl : (Entries.ofPairs (s.keptPairs (((s.mergedFields name).map Prod.snd).filter
        fun f => !(s.ownNames d).contains f.name))).lookup key with
    | none => rw [Option.none_or, lookup_composedFields_eq, if_neg hkey]
    | some f =>
      have hpair := (Entries.mem_putAll (Entries.mem_of_lookup hl)).resolve_right List.not_mem_nil
      obtain ⟨g, hg, heq⟩ := List.mem_map.mp (List.mem_filter.mp hpair).1
      obtain ⟨hname, rfl⟩ := Prod.mk.inj heq
      obtain ⟨p, hp, rfl⟩ := List.mem_map.mp (List.mem_filter.mp hg).1
      have hmem : (key, p.2) ∈ s.mergedFields name := by
        rw [← hname, ← s.name_of_mem_mergedFields hp]
        exact hp
      rw [Option.some_or, hbehind key p.2 hmem hkey]

include hknown

theorem keys_compose_appended : (s.compose choice e).keys = (s.compose choice d).keys := by
  have hcounts : s.counts e = s.counts d := by
    funext f
    rw [counts, counts, ownNames_congr hfields]
  rw [keys_compose, keys_compose, ownNames_congr hfields, hcounts, hinterfaces,
    List.flatMap_append, List.map_append, List.filter_append, List.map_append,
    List.flatMap_singleton]
  refine Entries.eraseDups_append_of_subset (fun key hkey => ?_) _
  obtain ⟨f, hf, rfl⟩ := List.mem_map.mp hkey
  obtain ⟨hmem, hcount⟩ := List.mem_filter.mp hf
  obtain ⟨p, hp, rfl⟩ := List.mem_map.mp hmem
  have hname : p.1 = p.2.name := s.name_of_mem_mergedFields hp
  by_cases hown : p.1 ∈ s.ownNames d
  · -- Any field of the name counts where the record has one itself.
    obtain ⟨q, hq, hqname⟩ := List.mem_map.mp (hknown p hp)
    obtain ⟨other, -, hqmem⟩ := List.mem_flatMap.mp hq
    have hqfield : q.2.name = p.1 := (s.name_of_mem_mergedFields hqmem).symm.trans hqname
    refine List.mem_map.mpr ⟨q.2, List.mem_filter.mpr ⟨List.mem_map_of_mem hq, ?_⟩, ?_⟩
    · simp [counts, hqfield, hown]
    · rw [hqfield, hname]
  · have hlookup := hbehind p.1 p.2 hp hown
    have hpair := (Entries.mem_putAll (Entries.mem_of_lookup hlookup)).resolve_right List.not_mem_nil
    obtain ⟨hlisted, hkept⟩ := List.mem_filter.mp hpair
    rcases List.mem_append.mp hlisted with hinherited | hmine
    · refine List.mem_map.mpr ⟨p.2, List.mem_filter.mpr ⟨?_, hcount⟩, rfl⟩
      exact List.mem_map.mpr ⟨_, hinherited, rfl⟩
    · obtain ⟨g, hg, heq⟩ := List.mem_map.mp hmine
      obtain ⟨hgname, rfl⟩ := Prod.mk.inj heq
      exact absurd (hgname ▸ List.mem_map_of_mem (List.mem_filter.mpr ⟨hg, hkept⟩)) hown

/-- Then the model stays the same. -/
theorem compose_appended : s.compose choice e = s.compose choice d := by
  refine Entries.eq_of_lookup_eq (s.nodup_keys_compose choice e)
    (keys_compose_appended hfields hinterfaces hknown hbehind) fun key => ?_
  rw [lookup_compose_eq, lookup_compose_eq, claimant?_appended hfields hinterfaces hbehind,
    lookup_composedFields_appended hfields hinterfaces hbehind]

end Appended

/-- Two scopes that know the same interfaces behind the first ones walk alike. -/
theorem lineageFrom_agree {P : RecordDeclaration → Prop} {steps : List Walk} {seen : List String}
    (hstep : ∀ i, P i → ∀ j, s.Extends i j → P j)
    (henter : ∀ name, .enter name ∈ steps → ∀ i, s.interface? name = some i → P i)
    (hsome : ∀ name i, s.interface? name = some i → P i → t.interface? name = some i)
    (hnone : ∀ name, s.interface? name = none → t.interface? name = none) :
    t.lineageFrom steps seen = s.lineageFrom steps seen := by
  induction steps, seen using lineageFrom.induct (s := s) with
  | case1 seen => rw [lineageFrom_nil, lineageFrom_nil]
  | case2 seen i rest ih =>
    rw [lineageFrom_leave, lineageFrom_leave,
      ih fun name hname => henter name (List.mem_cons_of_mem _ hname)]
  | case3 seen name rest found ih =>
    rw [lineageFrom_unknown found, lineageFrom_unknown (hnone name found)]
    exact ih fun name hname => henter name (List.mem_cons_of_mem _ hname)
  | case4 seen name rest i found mem ih =>
    have hi := hsome name i found (henter name List.mem_cons_self i found)
    rw [lineageFrom_seen found mem, lineageFrom_seen hi mem]
    exact ih fun name hname => henter name (List.mem_cons_of_mem _ hname)
  | case5 seen name rest i found new ih =>
    have hPi : P i := henter name List.mem_cons_self i found
    rw [lineageFrom_new found new, lineageFrom_new (hsome name i found hPi) new]
    refine ih fun other hother j hj => ?_
    rcases List.mem_append.mp hother with hmem | hmem
    · obtain ⟨parent, hparent, heq⟩ := List.mem_map.mp hmem
      obtain rfl : parent = other := Walk.enter.inj heq
      exact hstep i hPi j ⟨parent, hparent, hj⟩
    · refine henter other (List.mem_cons_of_mem _ ?_) j hj
      exact (List.mem_cons.mp hmem).resolve_left Walk.noConfusion

theorem reached_of_findKind? {ds : Declarations} {k : DeclarationKind}
    (h : ds.findKind? k name = some d) (hinterface : k ≠ .interface) (hscalar : k ≠ .scalar) :
    Reached { declarations := ds } d := by
  obtain ⟨hmem, rfl, rfl⟩ := Declarations.findKind?_mem h
  exact .root (d := d) (Declarations.mem_roots_iff.mpr ⟨hmem, hinterface, hscalar⟩) h

section Growth

/- Declarations gain fields and interfaces and lose none. -/
variable {R : Declaration → Declaration → Prop} {a b : Declarations} (h : Declarations.Matches R a b)
  (hfields : ∀ d e, R d e → d.fields ⊆ e.fields) (hinterfaces : ∀ d e, R d e → d.interfaces ⊆ e.interfaces)

include h hinterfaces

/-- What was behind an interface of something that is reached is reached. -/
theorem reached_of_mem_lineage (hreached : Reached { declarations := b } e) (hname : name ∈ e.interfaces)
    {i : RecordDeclaration} (hi : i ∈ lineage { declarations := a } name) :
    ∃ j, R (.interface i) j ∧ Reached { declarations := b } j := by
  have hnext : ∀ x, Reached { declarations := b } x → ∀ other ∈ x.interfaces, ∀ k,
      interface? { declarations := a } other = some k →
        ∃ k', R (.interface k) k' ∧ Reached { declarations := b } k' := by
    intro x hx other hother k hk
    obtain ⟨k', hk', hpair⟩ := h.findKind?_of_some (Declarations.interface?_eq_some_iff.mp hk)
    exact ⟨k', hpair.rel, hx.asked (asks_of_interface hother hk')⟩
  refine forall_lineageFrom
    (P := fun i => ∃ j, R (.interface i) j ∧ Reached { declarations := b } j) ?_ ?_ (by simp) i hi
  · rintro k ⟨k', hrel, hk'⟩ parent hparent l hl
    exact hnext k' hk' parent (hinterfaces _ _ hrel hparent) l hl
  · intro other hother k hk
    obtain rfl : other = name := by simpa using hother
    exact hnext e hreached other hname k hk

include hfields

theorem Reached.mono (hd : Reached { declarations := a } d) :
    ∃ e, b.findKind? d.kind d.name = some e ∧ R d e ∧ Reached { declarations := b } e := by
  induction hd with
  | @root d x hd hx =>
    obtain ⟨-, hname, hkind⟩ := Declarations.findKind?_mem hx
    obtain ⟨-, hinterface, hscalar⟩ := Declarations.mem_roots_iff.mp hd
    rw [← hname, ← hkind] at hx
    obtain ⟨e, he, hpair⟩ := h.findKind?_of_some hx
    exact ⟨e, he, hpair.rel, reached_of_findKind? he (hkind ▸ hinterface) (hkind ▸ hscalar)⟩
  | @asked d x _ hasks ih =>
    obtain ⟨d', -, hrel, hreached⟩ := ih
    have hx : a.findKind? x.kind x.name = some x := by
      obtain ⟨_, _, -, hx⟩ := hasks
      obtain ⟨-, rfl, rfl⟩ := Declarations.findKind?_mem hx
      exact hx
    obtain ⟨e, he, hpair⟩ := h.findKind?_of_some hx
    refine ⟨e, he, hpair.rel, ?_⟩
    rcases hasks.cases with hobject | ⟨f, hf, hrequest⟩ | ⟨i, hi, -, hcase⟩
    · exact reached_of_findKind? he (by simp [hobject]) (by simp [hobject])
    · exact hreached.asked (asks_of_field (hfields d d' hrel hf) hrequest rfl he)
    · have hlisted : i ∈ d'.interfaces := hinterfaces d d' hrel hi
      rcases hcase with ⟨hkind, rfl⟩ | ⟨f, hf, hrequest⟩
      · exact hreached.asked (asks_of_interface hlisted (hkind ▸ he))
      · -- The field is declared by an interface behind `i`, which asks for its type itself.
        obtain ⟨j, hj, hfj⟩ := exists_lineage_of_mem_mergedFields hf
        obtain ⟨j', hrel', hj'⟩ := reached_of_mem_lineage h hinterfaces hreached hlisted hj
        exact hj'.asked (asks_of_field (hfields _ _ hrel' hfj) hrequest rfl he)

end Growth

end Scope

/-- The record of this name lists one more interface, after the others. -/
def RecordDeclaration.listing (name interface : String) (d : RecordDeclaration) : RecordDeclaration :=
  if d.name = name then { d with interfaces := d.interfaces ++ [interface] } else d

def Declaration.listing (name interface : String) : Declaration → Declaration
  | .object d => .object (d.listing name interface)
  | .interface d => .interface (d.listing name interface)
  | d => d

namespace Declaration

variable {name interface : String} {d : Declaration}

@[simp] theorem name_listing : (d.listing name interface).name = d.name := by
  cases d <;> simp only [listing, Declaration.name, RecordDeclaration.listing] <;> split <;> rfl

@[simp] theorem kind_listing : (d.listing name interface).kind = d.kind := by
  cases d <;> rfl

@[simp] theorem fields_listing : (d.listing name interface).fields = d.fields := by
  cases d <;> simp only [listing, Declaration.fields, RecordDeclaration.listing] <;> split <;> rfl

theorem listing_of_ne (h : d.name ≠ name) : d.listing name interface = d := by
  cases d with
  | object d | interface d =>
    have hne : d.name ≠ name := h
    simp [listing, RecordDeclaration.listing, hne]
  | input | union | enum | scalar => rfl

theorem interfaces_listing_self {other : String} (h : other ∈ d.interfaces) :
    (d.listing d.name interface).interfaces = d.interfaces ++ [interface] := by
  cases d with
  | object d => simp [listing, RecordDeclaration.listing, Declaration.name, Declaration.interfaces]
  | interface d => simp [listing, RecordDeclaration.listing, Declaration.name, Declaration.interfaces]
  | input | union | enum | scalar => cases h

theorem interfaces_subset_listing : d.interfaces ⊆ (d.listing name interface).interfaces := by
  cases d with
  | object d | interface d =>
    simp only [listing, RecordDeclaration.listing]
    split
    · exact List.subset_append_left _ _
    · exact List.Subset.refl _
  | input | union | enum | scalar => exact List.Subset.refl _

end Declaration

namespace Declarations

/-- The records of this name list one more interface, after the others. -/
def listing (ds : Declarations) (name interface : String) : Declarations :=
  { ds with
    objects := ds.objects.map (RecordDeclaration.listing name interface)
    interfaces := ds.interfaces.map (RecordDeclaration.listing name interface) }

variable {ds : Declarations} {name interface : String}

theorem category_listing (k : DeclarationKind) :
    (ds.listing name interface).category k = (ds.category k).map (Declaration.listing name interface) := by
  cases k <;> simp [category, listing, Declaration.listing]

theorem matches_listing (ds : Declarations) (name interface : String) :
    Matches (fun d e => e = d.listing name interface) ds (ds.listing name interface) := by
  intro k
  rw [category_listing]
  refine List.forall₂_map_right_iff.mpr (List.forall₂_same.mpr fun d _ => ?_)
  exact ⟨Declaration.name_listing.symm, Declaration.kind_listing.symm, rfl⟩

theorem findKind?_listing (k : DeclarationKind) (other : String) :
    (ds.listing name interface).findKind? k other =
      (ds.findKind? k other).map (Declaration.listing name interface) := by
  have hrel := (ds.matches_listing name interface).findKind? k other
  generalize ds.findKind? k other = d, (ds.listing name interface).findKind? k other = e at hrel ⊢
  cases hrel with
  | none => rfl
  | some hpair => rw [hpair.rel, Option.map_some]

section Implied

variable {d a : Declaration}

/-- What lists the new interface besides is the record itself. -/
theorem exists_lists_of_listing (distinct : ds.names.Nodup) (hd : d ∈ ds.all)
    (ha : ds.findKind? .interface a.name = some a) {x e : Declaration} (hx : x ∈ ds.all)
    (h : (ds.listing d.name a.name).Lists (x.listing d.name a.name) e) :
    ∃ y, e = y.listing d.name a.name ∧ (ds.Lists x y ∨ x = d ∧ y = a) := by
  obtain ⟨name, hname, he⟩ := h
  rw [findKind?_listing] at he
  obtain ⟨y, hy, rfl⟩ := Option.map_eq_some_iff.mp he
  refine ⟨y, rfl, ?_⟩
  by_cases heq : x.name = d.name
  · obtain rfl : x = d := eq_of_name_eq distinct hx hd heq
    by_cases hlisted : name ∈ x.interfaces
    · exact .inl ⟨name, hlisted, hy⟩
    · right
      have hnew : name = a.name := by
        cases x with
        | object x | interface x =>
          simp only [Declaration.listing, RecordDeclaration.listing, Declaration.name,
            Declaration.interfaces, if_true, List.mem_append, List.mem_singleton] at hname
          exact hname.resolve_left hlisted
        | input | union | enum | scalar => cases hname
      rw [hnew, ha] at hy
      exact ⟨rfl, (Option.some.inj hy).symm⟩
  · rw [Declaration.listing_of_ne heq] at hname
    exact .inl ⟨name, hname, hy⟩

/-- Listing an interface that is implemented anyway makes a record implement no other. -/
theorem implements_listing_iff (distinct : ds.names.Nodup) (hd : d ∈ ds.all) (ha : ds.Implements d a)
    {e : Declaration} : (ds.listing d.name a.name).Implements (d.listing d.name a.name) e ↔
      ∃ y, e = y.listing d.name a.name ∧ ds.Implements d y := by
  have hfound := findKind?_of_implements ha
  constructor
  · intro h
    induction h with
    | single h =>
      obtain ⟨y, rfl, hlists | ⟨-, rfl⟩⟩ := exists_lists_of_listing distinct hd hfound hd h
      · exact ⟨y, rfl, .single hlists⟩
      · exact ⟨y, rfl, ha⟩
    | tail _ h ih =>
      obtain ⟨x, rfl, hx⟩ := ih
      have hmem : x ∈ ds.all := (findKind?_mem (findKind?_of_implements hx)).1
      obtain ⟨y, rfl, hlists | ⟨-, rfl⟩⟩ := exists_lists_of_listing distinct hd hfound hmem h
      · exact ⟨y, rfl, hx.tail hlists⟩
      · exact ⟨y, rfl, ha⟩
  · rintro ⟨y, rfl, hy⟩
    refine Relation.TransGen.lift (Declaration.listing d.name a.name) ?_ _ _ hy
    rintro x z ⟨name, hname, hz⟩
    refine ⟨name, Declaration.interfaces_subset_listing hname, ?_⟩
    rw [findKind?_listing, hz]
    rfl

/-- Where the record does not lead back to itself, its interfaces bring the same fields. -/
theorem mergedFields_listing (distinct : ds.names.Nodup) (hd : d ∈ ds.all)
    (hacyclic : ¬ ds.Implements d d) {name : String}
    (hname : ∀ i, ds.findKind? .interface name = some i → ds.Implements d i) :
    Scope.mergedFields { declarations := ds.listing d.name interface } name =
      Scope.mergedFields { declarations := ds } name := by
  have hlineage : Scope.lineage { declarations := ds.listing d.name interface } name =
      Scope.lineage { declarations := ds } name := by
    refine Scope.lineageFrom_agree (P := fun i => ds.Implements d (.interface i)) ?_ ?_ ?_ ?_
    · rintro i hi j ⟨parent, hparent, hj⟩
      exact hi.tail ⟨parent, hparent, interface?_eq_some_iff.mp hj⟩
    · intro other hother i hi
      obtain rfl : other = name := by simpa using hother
      exact hname _ (interface?_eq_some_iff.mp hi)
    · intro other i hi himplements
      have hfound := interface?_eq_some_iff.mp hi
      have hne : (Declaration.interface i).name ≠ d.name := by
        intro heq
        have hsame := eq_of_name_eq distinct (findKind?_mem hfound).1 hd heq
        exact hacyclic (hsame ▸ himplements)
      rw [interface?_eq_some_iff, findKind?_listing, hfound, Option.map_some,
        Declaration.listing_of_ne hne]
    · intro other hother
      have hnone := Scope.isSome_interface? (s := { declarations := ds.listing d.name interface }) other
      rw [findKind?_listing, Option.isSome_map] at hnone
      change _ = (Declarations.findKind? ds .interface other).isSome at hnone
      rw [← Scope.isSome_interface? (s := { declarations := ds }), hother] at hnone
      exact Option.not_isSome_iff_eq_none.mp (by simp [hnone])
  rw [Scope.mergedFields, Scope.mergedFields, hlineage]

theorem mem_all_listing (hd : d ∈ ds.all) :
    d.listing d.name interface ∈ (ds.listing d.name interface).all := by
  obtain ⟨e, he, hpair⟩ := (ds.matches_listing d.name interface).exists_of_mem hd
  exact hpair.rel ▸ he

theorem kept_listing (kept : ds.Kept) : (ds.listing name interface).Kept := by
  have hmatches := ds.matches_listing name interface
  have hresolved := hmatches.resolveKinds (S := fun _ _ => True) fun _ _ _ => trivial
  intro e he f hf
  obtain ⟨x, hx, hpair⟩ := Entries.exists_rel_of_mem hmatches.all he
  rw [hpair.rel, Declaration.fields_listing] at hf
  rw [← hresolved.keeps_eq, ← hmatches.resolveField_eq]
  exact kept x hx f hf

theorem mem_keys_listing_iff (distinct : ds.names.Nodup) (hd : d ∈ ds.all) (ha : ds.Implements d a)
    {key : String} : key ∈ (Scope.listedFields { declarations := ds.listing d.name a.name }
        (d.listing d.name a.name)).keys ↔
      key ∈ (Scope.listedFields { declarations := ds } d).keys := by
  rw [mem_keys_listedFields_iff, mem_keys_listedFields_iff, Declaration.fields_listing]
  refine or_congr ?_ Iff.rfl
  constructor
  · rintro ⟨e, he, hkey⟩
    obtain ⟨y, rfl, hy⟩ := (implements_listing_iff distinct hd ha).mp he
    rw [Declaration.fields_listing] at hkey
    exact ⟨y, hy, hkey⟩
  · rintro ⟨e, he, hkey⟩
    refine ⟨e.listing d.name a.name, (implements_listing_iff distinct hd ha).mpr ⟨e, rfl, he⟩, ?_⟩
    rwa [Declaration.fields_listing]

theorem reached_listing (distinct : ds.names.Nodup) (hd : d ∈ ds.all)
    (h : Scope.Reached { declarations := ds.resolveKinds } (ds.resolve d)) :
    Scope.Reached { declarations := (ds.listing name interface).resolveKinds }
      ((ds.listing name interface).resolve (d.listing name interface)) := by
  have hmatches := (ds.matches_listing name interface).resolveKinds
    (S := fun d e => d.fields ⊆ e.fields ∧ d.interfaces ⊆ e.interfaces) fun d e hpair => by
      rw [hpair.rel]
      constructor
      · rw [fields_resolve, fields_resolve, Declaration.fields_listing]
        intro f hf
        obtain ⟨g, hg, rfl⟩ := List.mem_map.mp hf
        rw [(ds.matches_listing name interface).resolveField_eq]
        exact List.mem_map_of_mem hg
      · rw [interfaces_resolve, interfaces_resolve]
        exact Declaration.interfaces_subset_listing
  obtain ⟨e, he, -, hreached⟩ :=
    Scope.Reached.mono hmatches (fun _ _ hrel => hrel.1) (fun _ _ hrel => hrel.2) h
  rw [name_resolve, kind_resolve, findKind?_resolveKinds, findKind?_listing,
    findKind?_of_mem distinct hd] at he
  exact Option.some.inj he ▸ hreached

/-- An interface brings at least the names that those which it implements do. -/
theorem keys_merged_subset {b : Declaration} (hb : ds.findKind? .interface name = some b)
    (ha : ds.Implements b a) : (ds.merged a.name).keys ⊆ (ds.merged name).keys := by
  intro key hkey
  obtain ⟨i, hi, hdeclares⟩ := Scope.mem_keys_mergedFields.mp hkey
  obtain ⟨top, htop, hreach⟩ := mem_lineage_iff.mp hi
  obtain rfl : a = top := Option.some.inj ((findKind?_of_implements ha).symm.trans htop)
  exact Scope.mem_keys_mergedFields.mpr
    ⟨i, mem_lineage_iff.mpr ⟨_, hb, ha.to_reflTransGen.trans hreach⟩, hdeclares⟩

theorem keys_mergedFields_resolveKinds (name : String) :
    (Scope.mergedFields { declarations := ds.resolveKinds } name).keys = (ds.merged name).keys := by
  rw [mergedFields_resolveKinds]
  simp [Entries.keys, merged, Function.comp_def]

/-- Every interface that the record lists in the end brings the same fields as before. -/
theorem mergedFields_resolve_listing (distinct : ds.names.Nodup) (hd : d ∈ ds.all)
    (ha : ds.Implements d a) (hacyclic : ¬ ds.Implements d d)
    (hname : name ∈ d.interfaces ++ [a.name]) :
    Scope.mergedFields { declarations := (ds.listing d.name a.name).resolveKinds } name =
      Scope.mergedFields { declarations := ds.resolveKinds } name := by
  have himplements : ∀ i, ds.findKind? .interface name = some i → ds.Implements d i := by
    intro i hi
    rcases List.mem_append.mp hname with hmem | hmem
    · exact .single ⟨name, hmem, hi⟩
    · rw [List.mem_singleton.mp hmem, findKind?_of_implements ha] at hi
      exact Option.some.inj hi ▸ ha
  rw [mergedFields_resolveKinds, mergedFields_resolveKinds,
    mergedFields_listing distinct hd hacyclic himplements]
  exact List.map_congr_left fun e _ => by rw [(ds.matches_listing d.name a.name).resolveField_eq]

/-- The model of a record that lists one more interface, which it implements through one that it lists. -/
theorem compose_listing (distinct : ds.names.Nodup) (kept : ds.Kept) (hd : d ∈ ds.all) {b : Declaration}
    (hb : ds.Lists d b) (ha : ds.Implements b a) (hacyclic : ¬ ds.Implements d d)
    (hbehind : ∀ key f, (key, f) ∈ ds.merged a.name → key ∉ d.fields.map Field.name →
      (Scope.composedFields { declarations := ds.resolveKinds } (ds.resolve d)).lookup key =
        some (ds.resolveField f)) (choice : IdentifierChoice) :
    let es := ds.listing d.name a.name
    Scope.compose { declarations := es.resolveKinds } choice (es.resolve (d.listing d.name a.name)) =
      Scope.compose { declarations := ds.resolveKinds } choice (ds.resolve d) := by
  intro es
  let s : Scope := { declarations := ds.resolveKinds }
  let t : Scope := { declarations := es.resolveKinds }
  have hmatches := ds.matches_listing d.name a.name
  have hresolved := hmatches.resolveKinds (S := fun _ _ => True) fun _ _ _ => trivial
  have hda : ds.Implements d a := .head hb ha
  obtain ⟨listed, hlisted, hfirst⟩ := hb
  have hfields : (es.resolve (d.listing d.name a.name)).fields = (ds.resolve d).fields := by
    rw [fields_resolve, fields_resolve, Declaration.fields_listing]
    exact List.map_congr_left fun f _ => (hmatches.resolveField_eq f).symm
  have hinterfaces : (es.resolve (d.listing d.name a.name)).interfaces =
      (ds.resolve d).interfaces ++ [a.name] := by
    rw [interfaces_resolve, interfaces_resolve, Declaration.interfaces_listing_self hlisted]
  have hmerged : ∀ name ∈ (es.resolve (d.listing d.name a.name)).interfaces,
      t.mergedFields name = s.mergedFields name := by
    intro name hname
    rw [hinterfaces, interfaces_resolve] at hname
    exact mergedFields_resolve_listing distinct hd hda hacyclic hname
  have hknown : ∀ p ∈ s.mergedFields a.name,
      p.1 ∈ Entries.keys ((ds.resolve d).interfaces.flatMap s.mergedFields) := by
    intro p hp
    have hkey : p.1 ∈ (s.mergedFields listed).keys := by
      have hmem := Entries.mem_keys_of_mem hp
      rw [keys_mergedFields_resolveKinds] at hmem ⊢
      exact keys_merged_subset hfirst ha hmem
    obtain ⟨q, hq, hname⟩ := List.mem_map.mp hkey
    rw [← hname, interfaces_resolve]
    exact Entries.mem_keys_of_mem (List.mem_flatMap.mpr ⟨listed, hlisted, hq⟩)
  have hcomes : ∀ key f, (key, f) ∈ s.mergedFields a.name → key ∉ s.ownNames (ds.resolve d) →
      (s.composedFields (ds.resolve d)).lookup key = some f := by
    intro key f hf hkey
    rw [mergedFields_resolveKinds] at hf
    obtain ⟨e, he, heq⟩ := List.mem_map.mp hf
    obtain ⟨rfl, rfl⟩ := Prod.mk.inj heq
    refine hbehind e.1 e.2 he fun hmem => hkey ?_
    obtain ⟨g, hg, hname⟩ := List.mem_map.mp hmem
    rw [← hname, ← name_resolveField ds g, Scope.ownNames, fields_resolve]
    exact List.mem_map_of_mem (List.mem_filter.mpr ⟨List.mem_map_of_mem hg, kept d hd g hg⟩)
  calc t.compose choice (es.resolve (d.listing d.name a.name))
      = s.compose choice (es.resolve (d.listing d.name a.name)) :=
        Scope.compose_congr hresolved.resolve?_eq.symm hmerged
    _ = s.compose choice (ds.resolve d) :=
        Scope.compose_appended hfields hinterfaces hknown hcomes

/-- A record that lists one more interface, which one that it lists implements, keeps its property keys.
Where every field that comes from that interface is behind a property of the record already, or is
declared by the record itself, the model stays the same. -/
theorem compile_listing (distinct : ds.names.Nodup) (kept : ds.Kept) (hd : d ∈ ds.all)
    {b : Declaration} (hb : ds.Lists d b) (ha : ds.Implements b a) (config : Config) :
    ∃ c c', ds.compile config = .ok c ∧ (ds.listing d.name a.name).compile config = .ok c' ∧
      (d.name ∈ c.registry.keys → ∃ ps qs,
        c.registry.find? d.name = some (.model ⟨d.name, ps, true⟩) ∧
        c'.registry.find? d.name = some (.model ⟨d.name, qs, true⟩) ∧
        (∀ key, key ∈ qs.keys ↔ key ∈ ps.keys) ∧
        (¬ ds.Implements d d → (∀ key f, (key, f) ∈ ds.merged a.name →
          key ∉ d.fields.map Field.name →
            (Scope.composedFields { declarations := ds.resolveKinds } (ds.resolve d)).lookup key =
              some (ds.resolveField f)) → qs = ps)) := by
  let es := ds.listing d.name a.name
  let d' := d.listing d.name a.name
  have hdistinct : es.names.Nodup := (ds.matches_listing d.name a.name).names_eq ▸ distinct
  obtain ⟨c, hc, hyields⟩ := yields_compile distinct config
  obtain ⟨c', hc', hyields'⟩ := yields_compile hdistinct config
  refine ⟨c, c', hc, hc', fun hr => ?_⟩
  have hmodel : d.isModel = true := by
    obtain ⟨name, hname, -⟩ := hb
    cases d with
    | object | interface => rfl
    | input | union | enum | scalar => cases hname
  have hd' : d' ∈ es.all := mem_all_listing hd
  have hname : d'.name = d.name := Declaration.name_listing
  have hmodel' : d'.isModel = true := by
    rw [Declaration.isModel, Declaration.kind_listing]
    exact hmodel
  have hr' : d'.name ∈ c'.registry.keys :=
    (mem_keys_compile_iff hdistinct hc' hd').mpr
      (reached_listing distinct hd ((mem_keys_compile_iff distinct hc hd).mp hr))
  have hfind' := hyields'.find?_model hd' hmodel' hr'
  rw [hname] at hfind'
  refine ⟨_, _, hyields.find?_model hd hmodel hr, hfind', fun key => ?_, fun hacyclic hbehind => ?_⟩
  · rw [mem_keys_compose_of_kept (kept_listing kept) hd', mem_keys_compose_of_kept kept hd]
    exact mem_keys_listing_iff distinct hd (.head hb ha)
  · exact compose_listing distinct kept hd hb ha hacyclic hbehind _

end Implied

/-- An object lists the interface that the one it lists implements without a change to its field. -/
theorem compile_listing_node :
    let node : RecordDeclaration := ⟨"Node", [⟨"id", .nonNull (.named "ID"), .unknown⟩], []⟩
    let named : RecordDeclaration := ⟨"Named", [⟨"name", .named "String", .unknown⟩], ["Node"]⟩
    let d : Declaration := .object ⟨"User", [⟨"email", .named "ID", .unknown⟩], ["Named"]⟩
    let ds : Declarations :=
      { objects := [⟨"User", [⟨"email", .named "ID", .unknown⟩], ["Named"]⟩]
        interfaces := [node, named] }
    ds.names.Nodup ∧ ds.Kept ∧ d ∈ ds.all ∧ ds.Lists d (.interface named) ∧
    ds.Implements (.interface named) (.interface node) ∧ ¬ ds.Implements d d ∧
    (∀ key f, (key, f) ∈ ds.merged "Node" → key ∉ d.fields.map Field.name →
      (Scope.composedFields { declarations := ds.resolveKinds } (ds.resolve d)).lookup key =
        some (ds.resolveField f)) ∧
    ∃ c c' ps, ds.compile {} = .ok c ∧ (ds.listing "User" "Node").compile {} = .ok c' ∧
      c.registry.find? "User" = some (.model ⟨"User", ps, true⟩) ∧
      c'.registry.find? "User" = some (.model ⟨"User", ps, true⟩) := by
  intro node named d ds
  have distinct : ds.names.Nodup := by decide
  have unset : ds.Unset := by simp [Unset, ds, all, Declaration.fields, node, named]
  have kept : ds.Kept := kept_of_knows distinct unset (by decide)
  have hd : d ∈ ds.all := by simp [ds, all, d]
  have hb : ds.Lists d (.interface named) := ⟨"Named", List.mem_cons_self, rfl⟩
  have ha : ds.Implements (.interface named) (.interface node) :=
    .single ⟨"Node", List.mem_cons_self, rfl⟩
  have hacyclic : ¬ ds.Implements d d := by
    intro h
    obtain ⟨_, -, _, heq, -⟩ := implements_iff.mp h
    simp [d] at heq
  have hlines : (ds.resolve d).interfaces.map (Scope.lineage { declarations := ds.resolveKinds }) =
      [[⟨"Node", [⟨"id", .nonNull (.named "ID"), .identifier⟩], []⟩,
        ⟨"Named", [⟨"name", .named "String", .primitive⟩], ["Node"]⟩]] := by cbv
  have hbehind : ∀ key f, (key, f) ∈ ds.merged "Node" → key ∉ d.fields.map Field.name →
      (Scope.composedFields { declarations := ds.resolveKinds } (ds.resolve d)).lookup key =
        some (ds.resolveField f) := by
    intro key f hf _
    have hline : Scope.lineage { declarations := ds } "Node" = [node] := by cbv
    rw [merged, Scope.mergedFields, hline] at hf
    obtain ⟨rfl, rfl⟩ := Prod.mk.inj (List.mem_singleton.mp hf)
    rw [Scope.composedFields, Scope.listedFields, Scope.flatMap_mergedFields hlines]
    rfl
  obtain ⟨c, c', hc, hc', hmodels⟩ := compile_listing distinct kept hd hb ha {}
  have hmem := (closed_compile distinct unset hc).roots _ hd (by decide) (by decide)
  obtain ⟨ps, qs, hps, hqs, -, hsame⟩ := hmodels hmem
  rw [hsame hacyclic hbehind] at hqs
  exact ⟨distinct, kept, hd, hb, ha, hacyclic, hbehind, c, c', ps, hc, hc', hps, hqs⟩

/-- An interface requires a field that the one it implements has optional. An object that lists both of
them, as schemas are meant to, has the field of the second one again. -/
theorem compile_listing_refined :
    let d : Declaration := .object ⟨"T", [⟨"y", .named "Int", .unknown⟩], ["B"]⟩
    let a : RecordDeclaration := ⟨"A", [⟨"x", .named "String", .unknown⟩], []⟩
    let b : RecordDeclaration := ⟨"B", [⟨"x", .nonNull (.named "String"), .unknown⟩], ["A"]⟩
    let ds : Declarations :=
      { objects := [⟨"T", [⟨"y", .named "Int", .unknown⟩], ["B"]⟩], interfaces := [a, b] }
    ds.names.Nodup ∧ (∀ d ∈ ds.all, ∀ f ∈ d.fields, ds.knows f.typeName = true) ∧
      ds.Lists d (.interface b) ∧ ds.Implements (.interface b) (.interface a) ∧
      ∃ c c' ps qs, ds.compile {} = .ok c ∧ (ds.listing "T" "A").compile {} = .ok c' ∧
        c.registry.find? "T" = some (.model ⟨"T", ps, true⟩) ∧
        c'.registry.find? "T" = some (.model ⟨"T", qs, true⟩) ∧
        ps.lookup "x" = some .string ∧ qs.lookup "x" = some (.maybeNull .string) := by
  intro d a b ds
  let ps : Entries Descriptor := [("x", .string), ("y", .maybeNull .number)]
  let qs : Entries Descriptor := [("x", .maybeNull .string), ("y", .maybeNull .number)]
  let a' : RecordDeclaration := ⟨"A", [⟨"x", .named "String", .primitive⟩], []⟩
  let b' : RecordDeclaration := ⟨"B", [⟨"x", .nonNull (.named "String"), .primitive⟩], ["A"]⟩
  let d' : Declaration := .object ⟨"T", [⟨"y", .named "Int", .unknown⟩], ["B", "A"]⟩
  let ds' : Declarations := ds.listing "T" "A"
  have distinct : ds.names.Nodup := by decide
  have distinct' : ds'.names.Nodup := by decide
  have unset : ds.Unset := by simp [Unset, ds, all, Declaration.fields, a, b]
  have unset' : ds'.Unset := by
    simp [Unset, ds', ds, listing, RecordDeclaration.listing, all, Declaration.fields, a, b]
  have hlines : (ds.resolve d).interfaces.map (Scope.lineage { declarations := ds.resolveKinds }) =
      [[a', b']] := by cbv
  have hlines' : (ds'.resolve d').interfaces.map (Scope.lineage { declarations := ds'.resolveKinds }) =
      [[a', b'], [a']] := by cbv
  obtain ⟨c, hc, hyields⟩ := yields_compile distinct {}
  obtain ⟨c', hc', hyields'⟩ := yields_compile distinct' {}
  have hd : d ∈ ds.all := List.mem_cons_self
  have hd' : d' ∈ ds'.all := List.mem_cons_self
  have hT := (closed_compile distinct unset hc).roots _ hd (by decide) (by decide)
  have hT' := (closed_compile distinct' unset' hc').roots _ hd' (by decide) (by decide)
  have hb : ds.Lists d (.interface b) := ⟨"B", List.mem_cons_self, rfl⟩
  have ha : ds.Implements (.interface b) (.interface a) := .single ⟨"A", List.mem_cons_self, rfl⟩
  exact ⟨distinct, by decide, hb, ha, c, c', ps, qs, hc, hc', hyields.find?_composeAlong hd rfl hT hlines,
    hyields'.find?_composeAlong hd' rfl hT' hlines', rfl, rfl⟩

end Declarations

end CheckedModels
