import CheckedModels.Proofs.Compile.Reached
import CheckedModels.Proofs.Conformance.Fields
import Mathlib.Order.Bounds.Basic

/-! Which names are compiled: the least set that holds the names of all inputs, objects, unions and
enums and is closed under what records say themselves, by their own fields and the interfaces that
they list. -/
namespace CheckedModels

namespace Scope

variable {s : Scope} {d e : Declaration} {kind : DeclarationKind} {name : String}

theorem isSome_interface? (name : String) :
    (s.interface? name).isSome = (s.declarations.findKind? .interface name).isSome := by
  unfold interface?
  cases hf : s.declarations.findKind? .interface name with
  | none => rfl
  | some d =>
    have hkind : d.kind = .interface := (Declarations.findKind?_mem hf).2.2
    cases d with
    | interface d => rfl
    | object | input | union | enum | scalar => cases hkind

theorem reach_mem_ownTasks_iff {f : Field} : Task.reach kind name ∈ s.ownTasks f ↔
    f.request? = some (name, kind) ∧ (s.named? name kind).isSome = true := by
  have htask : Task.reach kind name ∈ s.ownTasks f ↔ f.isIdentifierCandidate = false ∧
      (s.resolve? f).isSome = true ∧ f.request? = some (name, kind) := by
    unfold ownTasks fieldTask
    cases f.isIdentifierCandidate <;> cases s.resolve? f <;> cases f.request? <;>
      simp [Prod.ext_iff, and_comm, eq_comm]
  rw [htask]
  constructor
  · rintro ⟨-, hresolve, hrequest⟩
    rw [resolve?, f.resolve?_of_request? hrequest, Option.isSome_map] at hresolve
    exact ⟨hrequest, hresolve⟩
  · rintro ⟨hrequest, hnamed⟩
    have hcandidate : f.isIdentifierCandidate = false := by
      unfold Field.request? at hrequest
      unfold Field.isIdentifierCandidate
      cases hk : f.kind <;> simp_all [ReferencedKind.declared?]
    refine ⟨hcandidate, ?_, hrequest⟩
    rw [resolve?, f.resolve?_of_request? hrequest, Option.isSome_map]
    exact hnamed

theorem reach_mem_memberTasks {union member : String}
    (h : Task.reach kind name ∈ s.memberTasks union member) : name = member ∧ kind = .object := by
  unfold memberTasks at h
  split at h
  · have : kind = .object ∧ name = member := by simpa using h
    exact this.symm
  · simp at h

theorem reach_mem_interfaceTasks {i : String} (h : Task.reach kind name ∈ s.interfaceTasks d i) :
    (s.interface? i).isSome = true ∧
      (kind = .interface ∧ name = i ∨ ∃ f ∈ s.mergedFields i, f.2.request? = some (name, kind)) := by
  unfold interfaceTasks at h
  split at h
  · simp at h
  · next hi =>
    refine ⟨by simpa [Option.isNone_iff_eq_none, Option.isSome_iff_ne_none] using hi, ?_⟩
    rcases List.mem_cons.mp h with h | h
    · exact .inl (Task.reach.inj h)
    · obtain ⟨f, hf, htask⟩ := List.mem_flatMap.mp h
      split at htask
      · simp at htask
      · exact .inr ⟨f, hf, (reach_mem_ownTasks_iff.mp htask).1⟩

/-- All that a declaration can ask for: a member, the type of an own field, an interface that it lists,
or the type of a field that comes from such an interface. -/
theorem Asks.cases (h : s.Asks d e) :
    e.kind = .object ∨ (∃ f ∈ d.fields, f.request? = some (e.name, e.kind)) ∨
      ∃ i ∈ d.interfaces, (s.interface? i).isSome = true ∧
        (e.kind = .interface ∧ e.name = i ∨
          ∃ f ∈ s.mergedFields i, f.2.request? = some (e.name, e.kind)) := by
  obtain ⟨kind, name, htask, he⟩ := h
  obtain ⟨-, rfl, rfl⟩ := Declarations.findKind?_mem he
  unfold tasks at htask
  split at htask
  · obtain ⟨m, -, hm⟩ := List.mem_flatMap.mp htask
    exact .inl (reach_mem_memberTasks hm).2
  · right
    rcases List.mem_append.mp htask with htask | htask
    · obtain ⟨f, hf, hown⟩ := List.mem_flatMap.mp htask
      exact .inl ⟨f, hf, (reach_mem_ownTasks_iff.mp hown).1⟩
    · obtain ⟨i, hi, hinterface⟩ := List.mem_flatMap.mp htask
      exact .inr ⟨i, hi, reach_mem_interfaceTasks hinterface⟩

theorem asks_of_field {f : Field} (hf : f ∈ d.fields) (hrequest : f.request? = some (name, kind))
    (hfollows : s.follows kind = true) (he : s.declarations.findKind? kind name = some e) :
    s.Asks d e := by
  have hnamed : (s.named? name kind).isSome = true := by simp [named?, hfollows, he]
  have hown : Task.reach kind name ∈ s.ownTasks f := reach_mem_ownTasks_iff.mpr ⟨hrequest, hnamed⟩
  refine ⟨kind, name, ?_, he⟩
  cases d with
  | object d | interface d | input d =>
    exact List.mem_append_left _ (List.mem_flatMap.mpr ⟨f, hf, hown⟩)
  | union | enum | scalar => cases hf

theorem asks_of_interface (hi : name ∈ d.interfaces)
    (he : s.declarations.findKind? .interface name = some e) : s.Asks d e := by
  have hsome : (s.interface? name).isSome = true := by rw [isSome_interface?, he]; rfl
  have hinterface : Task.reach .interface name ∈ s.interfaceTasks d name := by
    unfold interfaceTasks
    rw [if_neg (by simpa [Option.isSome_iff_ne_none] using hsome)]
    exact List.mem_cons_self
  refine ⟨.interface, name, ?_, he⟩
  cases d with
  | object d | interface d =>
    exact List.mem_append_right _ (List.mem_flatMap.mpr ⟨name, hi, hinterface⟩)
  | input | union | enum | scalar => cases hi

end Scope

namespace Declarations

/-- A set of names with the names of all inputs, objects, unions and enums, and with every name that a
record in it refers to by itself: the declared type of an own field, where the type is not built in,
and each declared interface that the record lists. -/
structure Closed (ds : Declarations) (names : Set String) : Prop where
  roots : ∀ d ∈ ds.all, d.kind ≠ .interface → d.kind ≠ .scalar → d.name ∈ names
  fields : ∀ d ∈ ds.all, d.name ∈ names → ∀ f ∈ d.fields, builtinKind? f.typeName = none →
    (ds.find? f.typeName).isSome = true → f.typeName ∈ names
  interfaces : ∀ d ∈ ds.all, d.name ∈ names → ∀ name ∈ d.interfaces,
    (ds.findKind? .interface name).isSome = true → name ∈ names

variable {ds : Declarations}

/-- With its kind filled in, a field asks for the declaration of its type, unless that is built in. -/
theorem request?_resolveField {f : Field} (h : f.kind = .unknown) {name : String}
    {kind : DeclarationKind} : (ds.resolveField f).request? = some (name, kind) ↔
      f.typeName = name ∧ builtinKind? name = none ∧ ∃ d, ds.find? name = some d ∧ d.kind = kind := by
  unfold Field.request?
  rw [kind_resolveField h, typeName_resolveField, kindOf]
  cases hb : builtinKind? f.typeName with
  | some k =>
    have hk : k.declared? = none := by
      unfold builtinKind? at hb
      split at hb <;> simp_all <;> subst hb <;> rfl
    simp only [hk, Option.map_none, reduceCtorEq, false_iff]
    rintro ⟨rfl, hnone, -⟩
    simp [hb] at hnone
  | none =>
    cases hf : ds.find? f.typeName with
    | none =>
      simp only [ReferencedKind.declared?, Option.map_none, reduceCtorEq, false_iff]
      rintro ⟨rfl, -, d, hd, -⟩
      simp [hf] at hd
    | some d =>
      simp only [ReferencedKind.declared?_toReferenced, Option.map_some, Option.some.injEq,
        Prod.mk.injEq]
      constructor
      · rintro ⟨rfl, rfl⟩
        exact ⟨rfl, hb, d, hf, rfl⟩
      · rintro ⟨rfl, -, e, he, rfl⟩
        obtain rfl : d = e := Option.some.inj (hf.symm.trans he)
        exact ⟨rfl, rfl⟩

namespace Closed

variable {names : Set String}

theorem mem_of_request (h : ds.Closed names) {d : Declaration} (hd : d ∈ ds.all) (hn : d.name ∈ names)
    {f : Field} (hf : f ∈ d.fields) (unset : f.kind = .unknown) {name : String}
    {kind : DeclarationKind} (hrequest : (ds.resolveField f).request? = some (name, kind)) :
    name ∈ names := by
  obtain ⟨rfl, hbuiltin, e, he, -⟩ := (request?_resolveField unset).mp hrequest
  exact h.fields d hd hn f hf hbuiltin (by rw [he]; rfl)

theorem mem_of_lineage (h : ds.Closed names) {name : String} (hn : name ∈ names) :
    ∀ i ∈ Scope.lineage { declarations := ds } name, .interface i ∈ ds.all ∧ i.name ∈ names := by
  refine Scope.forall_lineageFrom ?_ ?_ (by simp)
  · rintro i ⟨hi, hname⟩ parent hparent j hj
    obtain ⟨hmem, heq⟩ := Scope.mem_all_of_interface? hj
    have hsome : (ds.findKind? .interface parent).isSome = true := by
      rw [← Scope.isSome_interface? (s := { declarations := ds }), hj]
      rfl
    exact ⟨hmem, heq ▸ h.interfaces _ hi hname parent hparent hsome⟩
  · intro other hother i hi
    obtain rfl : other = name := by simpa using hother
    obtain ⟨hmem, heq⟩ := Scope.mem_all_of_interface? hi
    exact ⟨hmem, heq ▸ hn⟩

/-- What a declaration in a closed set asks for is in the set, through inherited fields too. -/
theorem mem_of_asks (h : ds.Closed names) (unset : ds.Unset) {d e : Declaration} (hd : d ∈ ds.all)
    (hn : d.name ∈ names) (hasks : Scope.Asks { declarations := ds.resolveKinds } (ds.resolve d) e)
    (he : e ∈ ds.resolveKinds.all) : e.name ∈ names := by
  rcases hasks.cases with hobject | ⟨f, hf, hrequest⟩ | ⟨i, hi, hsome, hcase⟩
  · obtain ⟨o, ho, rfl⟩ := mem_all_resolveKinds_iff.mp he
    rw [kind_resolve] at hobject
    rw [name_resolve]
    exact h.roots o ho (by simp [hobject]) (by simp [hobject])
  · rw [fields_resolve] at hf
    obtain ⟨g, hg, rfl⟩ := List.mem_map.mp hf
    exact h.mem_of_request hd hn hg (unset d hd g hg) hrequest
  · rw [interfaces_resolve] at hi
    have hin : i ∈ names := by
      refine h.interfaces d hd hn i hi ?_
      rw [Scope.isSome_interface?, findKind?_resolveKinds, Option.isSome_map] at hsome
      exact hsome
    rcases hcase with ⟨-, rfl⟩ | ⟨f, hf, hrequest⟩
    · exact hin
    · rw [mergedFields_resolveKinds] at hf
      obtain ⟨g, hg, rfl⟩ := List.mem_map.mp hf
      obtain ⟨j, hj, hfield⟩ := Scope.exists_lineage_of_mem_mergedFields hg
      obtain ⟨hmem, hname⟩ := h.mem_of_lineage hin j hj
      exact h.mem_of_request hmem hname hfield (unset _ hmem _ hfield) hrequest

theorem mem_of_reached (h : ds.Closed names) (unset : ds.Unset) {e : Declaration}
    (he : Scope.Reached { declarations := ds.resolveKinds } e) :
    e ∈ ds.resolveKinds.all ∧ e.name ∈ names := by
  induction he with
  | @root d e hd he =>
    obtain ⟨hmem, -, hkind⟩ := findKind?_mem he
    obtain ⟨o, ho, rfl⟩ := mem_all_resolveKinds_iff.mp hmem
    obtain ⟨-, hinterface, hscalar⟩ := mem_roots_iff.mp hd
    rw [kind_resolve] at hkind
    rw [name_resolve]
    exact ⟨hmem, h.roots o ho (hkind ▸ hinterface) (hkind ▸ hscalar)⟩
  | @asked _ asked _ hasks ih =>
    obtain ⟨hmem, hname⟩ := ih
    obtain ⟨d, hd, rfl⟩ := mem_all_resolveKinds_iff.mp hmem
    have hfound : asked ∈ ds.resolveKinds.all := by
      obtain ⟨_, _, -, hf⟩ := hasks
      exact (findKind?_mem hf).1
    rw [name_resolve] at hname
    exact ⟨hfound, h.mem_of_asks unset hd hname hasks hfound⟩

end Closed

theorem closed_names (distinct : ds.names.Nodup) (unset : ds.Unset) : ds.Closed
    {name | name ∈ (Survey.ofRoots { declarations := ds.resolveKinds }).names} := by
  let s : Scope := { declarations := ds.resolveKinds }
  have hdistinct : ds.resolveKinds.names.Nodup := ds.names_resolveKinds ▸ distinct
  have hfound : ∀ d ∈ ds.all, s.declarations.findKind? d.kind d.name = some (ds.resolve d) := by
    intro d hd
    rw [findKind?_resolveKinds, findKind?_of_mem distinct hd]
    rfl
  -- A declaration whose name is reached is reached itself, and then all that it asks for is.
  have hasks : ∀ d ∈ ds.all, d.name ∈ (Survey.ofRoots s).names → ∀ e,
      s.Asks (ds.resolve d) e → e.name ∈ (Survey.ofRoots s).names := by
    intro d hd hn e he
    have hmem : ds.resolve d ∈ ds.resolveKinds.all := mem_all_resolveKinds_iff.mpr ⟨d, hd, rfl⟩
    have hreached := mem_reached_of_mem_names hdistinct hmem (by rwa [name_resolve])
    have hclosed := Survey.closed_run (s := s) (s.declarations.roots.map fun d => .reach d.kind d.name) {}
    exact ((hclosed _ hreached).resolve_left List.not_mem_nil) e he
  constructor
  · intro d hd hinterface hscalar
    have hroot : ds.resolve d ∈ s.declarations.roots :=
      mem_roots_iff.mpr ⟨mem_all_resolveKinds_iff.mpr ⟨d, hd, rfl⟩, by simpa, by simpa⟩
    have htask : Task.reach d.kind d.name ∈ s.declarations.roots.map fun d => .reach d.kind d.name :=
      List.mem_map.mpr ⟨ds.resolve d, hroot, by rw [kind_resolve, name_resolve]⟩
    exact Survey.mem_names_run htask (hfound d hd) {}
  · intro d hd hn f hf hbuiltin hdeclared
    obtain ⟨e, he⟩ := Option.isSome_iff_exists.mp hdeclared
    obtain ⟨hmem, hname⟩ := find?_mem he
    have hrequest : (ds.resolveField f).request? = some (f.typeName, e.kind) :=
      (request?_resolveField (unset d hd f hf)).mpr ⟨rfl, hbuiltin, e, he, rfl⟩
    have hfield : ds.resolveField f ∈ (ds.resolve d).fields := by
      rw [fields_resolve]
      exact List.mem_map_of_mem hf
    have hasked : s.Asks (ds.resolve d) (ds.resolve e) :=
      Scope.asks_of_field hfield hrequest rfl (hname ▸ hfound e hmem)
    have hin := hasks d hd hn _ hasked
    rwa [name_resolve, hname] at hin
  · intro d hd hn name hi hdeclared
    obtain ⟨e, he⟩ := Option.isSome_iff_exists.mp hdeclared
    obtain ⟨-, hname, -⟩ := findKind?_mem he
    have hasked : s.Asks (ds.resolve d) (ds.resolve e) := by
      have hlisted : name ∈ (ds.resolve d).interfaces := by rwa [interfaces_resolve]
      refine Scope.asks_of_interface hlisted ?_
      rw [findKind?_resolveKinds, he]
      rfl
    have hin := hasks d hd hn _ hasked
    rwa [name_resolve, hname] at hin

theorem closed_compile (distinct : ds.names.Nodup) (unset : ds.Unset) {config : Config} {c : Compilation}
    (hc : ds.compile config = .ok c) : ds.Closed {name | name ∈ c.registry.keys} := by
  rw [keys_compile hc]
  exact closed_names distinct unset

/-- Exactly the names that the schema leads to are compiled. A field that a record inherits or overrides
leads nowhere but through the interface that declares it. -/
theorem keys_compile_isLeast (distinct : ds.names.Nodup) (unset : ds.Unset) (config : Config) :
    ∃ c, ds.compile config = .ok c ∧
      IsLeast {names | ds.Closed names} {name | name ∈ c.registry.keys} := by
  refine ⟨_, compile_eq ds config, ?_⟩
  simp only [Survey.keys_map]
  refine ⟨closed_names distinct unset, fun names hclosed name hname => ?_⟩
  obtain ⟨e, he, rfl⟩ := List.mem_map.mp hname
  have hreached := Scope.reached_of_mem he
  rw [← ds.resolveKinds.sound_ofRoots.name_eq he]
  exact (hclosed.mem_of_reached unset hreached).2

/-- The scalar of an interface field is compiled though every object overrides the field, and nothing of
an interface that no record lists. -/
theorem keys_compile_isLeast_overridden :
    let ds : Declarations :=
      { objects := [⟨"User", [⟨"meta", .named "String", .unknown⟩], ["Node"]⟩]
        interfaces := [⟨"Node", [⟨"meta", .named "Meta", .unknown⟩], ["Node"]⟩,
          ⟨"Spare", [⟨"since", .named "Date", .unknown⟩], ["Node"]⟩]
        scalars := [⟨"Meta"⟩, ⟨"Date"⟩] }
    ds.names.Nodup ∧ ds.Unset ∧ ∃ c, ds.compile {} = .ok c ∧
      IsLeast {names | ds.Closed names} {name | name ∈ c.registry.keys} := by
  intro ds
  have distinct : ds.names.Nodup := by decide
  have unset : ds.Unset := by simp [Unset, ds, all, Declaration.fields]
  exact ⟨distinct, unset, keys_compile_isLeast distinct unset {}⟩

end Declarations

end CheckedModels
