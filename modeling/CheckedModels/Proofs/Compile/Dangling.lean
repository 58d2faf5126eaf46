import CheckedModels.Proofs.Compile.Claimants
import CheckedModels.Proofs.Compile.Inheritance
import CheckedModels.Proofs.Declaration.Padded

/-! References that lead nowhere: where they change nothing about what a schema is compiled to. -/
namespace CheckedModels

/-- The same definition, up to the order of the properties of a model. -/
inductive Definition.Reordered : Definition → Definition → Prop where
  | refl (d : Definition) : Reordered d d
  | model {name : String} {ps qs : Entries Descriptor} {isSealed : Bool} (h : ps.Perm qs) :
    Reordered (.model ⟨name, ps, isSealed⟩) (.model ⟨name, qs, isSealed⟩)

namespace Scope

/-- Steps of two walks: names that both of them enter, interfaces that are related, and names that the
second one does not know. -/
inductive WalksAlike (t : Scope) (R : RecordDeclaration → RecordDeclaration → Prop) :
    List Walk → List Walk → Prop where
  | nil : WalksAlike t R [] []
  | enter (name : String) {steps more : List Walk} (h : WalksAlike t R steps more) :
    WalksAlike t R (.enter name :: steps) (.enter name :: more)
  | leave {i j : RecordDeclaration} (hij : R i j) {steps more : List Walk}
    (h : WalksAlike t R steps more) : WalksAlike t R (.leave i :: steps) (.leave j :: more)
  | skip {name : String} (hname : t.interface? name = none) {steps more : List Walk}
    (h : WalksAlike t R steps more) : WalksAlike t R steps (.enter name :: more)

variable {s t : Scope} {R : RecordDeclaration → RecordDeclaration → Prop} {steps more : List Walk}
  {seen : List String}

theorem WalksAlike.enters {names others : List String}
    (h : Padded (fun name => t.interface? name = none) names others) (hrest : WalksAlike t R steps more) :
    WalksAlike t R (names.map .enter ++ steps) (others.map .enter ++ more) := by
  induction h with
  | nil => exact hrest
  | keep name _ ih => exact ih.enter name
  | insert hname _ ih => exact ih.skip hname

theorem related_lineageFrom (hfind : ∀ name, Option.Rel R (s.interface? name) (t.interface? name))
    (hname : ∀ i j, R i j → i.name = j.name)
    (hinterfaces : ∀ i j, R i j →
      Padded (fun name => t.interface? name = none) i.interfaces j.interfaces)
    (h : WalksAlike t R steps more) :
    List.Forall₂ R (s.lineageFrom steps seen) (t.lineageFrom more seen) := by
  have hunknown : ∀ name, t.interface? name = none → s.interface? name = none := by
    intro name hnone
    have hrel := hfind name
    rw [hnone] at hrel
    generalize s.interface? name = found at hrel ⊢
    cases hrel
    rfl
  have hknown : ∀ name j, t.interface? name = some j → ∃ i, s.interface? name = some i ∧ R i j := by
    intro name j hj
    have hrel := hfind name
    rw [hj] at hrel
    generalize s.interface? name = found at hrel ⊢
    cases hrel with
    | some hij => exact ⟨_, rfl, hij⟩
  induction more, seen using lineageFrom.induct (s := t) generalizing steps with
  | case1 seen =>
    cases h
    rw [lineageFrom_nil, lineageFrom_nil]
    exact .nil
  | case2 seen j rest ih =>
    cases h with
    | leave hij h =>
      rw [lineageFrom_leave, lineageFrom_leave]
      exact .cons hij (ih h)
  | case3 seen name rest found ih =>
    rw [lineageFrom_unknown found]
    cases h with
    | enter _ h =>
      rw [lineageFrom_unknown (hunknown name found)]
      exact ih h
    | skip _ h => exact ih h
  | case4 seen name rest j found mem ih =>
    rw [lineageFrom_seen found mem]
    cases h with
    | enter _ h =>
      obtain ⟨i, hi, hij⟩ := hknown name j found
      rw [lineageFrom_seen hi (hname i j hij ▸ mem)]
      exact ih h
    | skip hnone _ => simp [hnone] at found
  | case5 seen name rest j found new ih =>
    rw [lineageFrom_new found new]
    cases h with
    | enter _ h =>
      obtain ⟨i, hi, hij⟩ := hknown name j found
      rw [lineageFrom_new hi fun mem => new (hname i j hij ▸ mem), hname i j hij]
      exact ih (.enters (hinterfaces i j hij) (.leave hij h))
    | skip hnone _ => simp [hnone] at found

theorem addField_of_dropped {f : Field} (h : s.keeps f = false) (c : Composition) :
    s.addField c f = c := by
  obtain ⟨hcandidate, hresolve⟩ := Bool.or_eq_false_iff.mp h
  have hnone : s.resolve? f = none := Option.not_isSome_iff_eq_none.mp (by simp [hresolve])
  simp [addField, Composition.add, hcandidate, hnone]

end Scope

/-- What a task reaches, unless it is a remark or a look at what was reached. -/
def Task.reach? : Task → Option (DeclarationKind × String)
  | .reach kind name => some (kind, name)
  | _ => none

namespace Scope

variable {s : Scope}

theorem reach_ownTasks_of_dropped {f : Field} (h : s.keeps f = false) :
    (s.ownTasks f).filterMap Task.reach? = [] := by
  obtain ⟨hcandidate, hresolve⟩ := Bool.or_eq_false_iff.mp h
  have hnone : s.resolve? f = none := Option.not_isSome_iff_eq_none.mp (by simp [hresolve])
  simp [ownTasks, fieldTask, hcandidate, hnone, Task.reach?]

theorem content_of_isModel {config : Config} {d : Declaration} (h : d.isModel = true) :
    s.content config d = .model ⟨d.name, s.compose (config.choice d.name) d, true⟩ := by
  cases d with
  | object | input | interface => rfl
  | union | enum | scalar => cases h

theorem tasks_of_ne_union {d : Declaration} (h : d.kind ≠ .union) :
    s.tasks d = d.fields.flatMap s.ownTasks ++ d.interfaces.flatMap (s.interfaceTasks d) := by
  cases d with
  | object | input | interface | enum | scalar => rfl
  | union => exact absurd rfl h

end Scope

namespace Survey

variable {s t : Scope} {R : Declaration → Declaration → Prop} {todo other : List Task} {v w : Survey}

/-- Tasks that reach nothing only leave remarks. -/
theorem reached_run_idle (h : todo.filterMap Task.reach? = []) (v : Survey) :
    (run s todo v).reached = v.reached := by
  induction todo generalizing v with
  | nil => rw [run_nil]
  | cons task rest ih =>
    cases task with
    | reach kind name => simp [Task.reach?] at h
    | member name union =>
      rw [run_member, ih (by simpa [Task.reach?] using h)]
      split <;> rfl
    | remark n =>
      rw [run_remark, ih (by simpa [Task.reach?] using h)]
      rfl

/-- A survey comes to the first thing that is to be reached with nothing reached on the way. -/
theorem exists_run_reach {kind : DeclarationKind} {name : String}
    {later : List (DeclarationKind × String)}
    (h : todo.filterMap Task.reach? = (kind, name) :: later) (v : Survey) :
    ∃ rest w, run s todo v = run s (.reach kind name :: rest) w ∧
      rest.filterMap Task.reach? = later ∧ w.reached = v.reached := by
  obtain ⟨before, task, rest, rfl, hbefore, htask, hrest⟩ := List.filterMap_eq_cons_iff.mp h
  have hreach : task = .reach kind name := by
    cases task with
    | reach k n =>
      obtain ⟨rfl, rfl⟩ := Prod.mk.inj (Option.some.inj htask)
      rfl
    | member | remark => cases htask
  refine ⟨rest, run s before v, ?_, hrest, ?_⟩
  · rw [run_append, hreach]
  · exact reached_run_idle (List.filterMap_eq_nil_iff.mpr hbefore) v

/-- Where related declarations reach the same names in the same order, so do whole surveys. -/
theorem related_run
    (hfind : ∀ k name, Option.Rel R (s.declarations.findKind? k name) (t.declarations.findKind? k name))
    (hname : ∀ d e, R d e → d.name = e.name)
    (htasks : ∀ d e, R d e → (s.tasks d).filterMap Task.reach? = (t.tasks e).filterMap Task.reach?)
    (htodo : todo.filterMap Task.reach? = other.filterMap Task.reach?)
    (hreached : Entries.Related R v.reached w.reached) :
    Entries.Related R (run s todo v).reached (run t other w).reached := by
  induction todo, v using run.induct (s := s) generalizing other w with
  | case1 v =>
    rw [run_nil, reached_run_idle htodo.symm]
    exact hreached
  | case2 v n rest ih =>
    rw [run_remark]
    exact ih htodo hreached
  | case3 v name union rest ih =>
    rw [run_member]
    simp only [dite_eq_ite] at ih
    refine ih htodo ?_
    split <;> exact hreached
  | case4 v kind name rest found ih =>
    obtain ⟨others, w', hrun, hothers, hw⟩ := exists_run_reach (s := t) htodo.symm w
    have hnone : t.declarations.findKind? kind name = none := by
      have hrel := hfind kind name
      rw [found] at hrel
      generalize t.declarations.findKind? kind name = e at hrel ⊢
      cases hrel
      rfl
    rw [hrun, run_reach_none found, run_reach_none hnone]
    exact ih hothers.symm (hw ▸ hreached)
  | case5 v kind name rest d found seen ih =>
    obtain ⟨others, w', hrun, hothers, hw⟩ := exists_run_reach (s := t) htodo.symm w
    have hseen : name ∈ v.names := (Declarations.findKind?_mem found).2.1 ▸ seen
    have hkeys : v.names = w'.names := by
      rw [names, names, hw]
      exact hreached.keys_eq
    rw [hrun, run_reach_seen hseen, run_reach_seen (hkeys ▸ hseen)]
    exact ih hothers.symm (hw ▸ hreached)
  | case6 v kind name rest d found new ih =>
    obtain ⟨others, w', hrun, hothers, hw⟩ := exists_run_reach (s := t) htodo.symm w
    have hnew : name ∉ v.names := (Declarations.findKind?_mem found).2.1 ▸ new
    have hkeys : v.names = w'.names := by
      rw [names, names, hw]
      exact hreached.keys_eq
    obtain ⟨e, he, hrel⟩ : ∃ e, t.declarations.findKind? kind name = some e ∧ R d e := by
      have hrel := hfind kind name
      rw [found] at hrel
      generalize t.declarations.findKind? kind name = e at hrel ⊢
      cases hrel with
      | some hrel => exact ⟨_, rfl, hrel⟩
    rw [hrun, run_reach_new found hnew, run_reach_new he (hkeys ▸ hnew)]
    refine ih ?_ ?_
    · rw [List.filterMap_append, List.filterMap_append, htasks d e hrel, hothers]
    · change Entries.Related R (v.reached ++ [(d.name, d)]) (w'.reached ++ [(e.name, e)])
      rw [hw]
      exact List.rel_append hreached (.cons ⟨hname d e hrel, hrel⟩ .nil)

end Survey

namespace Declarations

variable {a b : Declarations} {d e : Declaration}

theorem vacant_of_unused {name : String} (h : ∀ d ∈ a.all, name ∉ d.fields.map Field.name)
    (i : Declaration) : a.Vacant i name :=
  fun d hd _ _ => ⟨h d hd, fun j hj => h j (findKind?_mem (findKind?_of_implements hj)).1⟩

/-- A field is put into one of the interfaces, where its name is vacant. -/
structure PutIn (a b : Declarations) (is : List RecordDeclaration) (p : String × Field) : Prop where
  dangling : a.Dangling p.2
  name_eq : p.1 = p.2.name
  place : ∃ i ∈ is, a.Vacant (.interface i) p.1 ∧
    ∃ j, .interface j ∈ b.all ∧ j.name = i.name ∧ p.2 ∈ j.fields

/-- Behind an interface there are the same others as before, each with references put in. -/
theorem related_lineage (h : Matches a.PaddedBy a b) (name : String) :
    List.Forall₂ (fun i j => Paired a.PaddedBy (.interface i) (.interface j) ∧ .interface j ∈ b.all)
      (Scope.lineage { declarations := a } name) (Scope.lineage { declarations := b } name) := by
  refine Scope.related_lineageFrom (fun name => ?_) (fun i j hij => hij.1.name_eq) (fun i j hij => ?_)
    (.enter name .nil)
  · have hrel := h.interface? name
    generalize Scope.interface? { declarations := a } name = found,
      hj : Scope.interface? { declarations := b } name = j at hrel
    cases hrel with
    | none => exact .none
    | some hij => exact .some ⟨hij, (findKind?_mem (interface?_eq_some_iff.mp hj)).1⟩
  · refine hij.1.rel.interfaces.imp fun other hother => ?_
    have hnone := h.isSome_findKind? .interface other
    rw [hother] at hnone
    have hsome := Scope.isSome_interface? (s := { declarations := b }) other
    rw [← hnone] at hsome
    exact Option.not_isSome_iff_eq_none.mp (by simp [hsome])

theorem padded_declaredFields {is js : List RecordDeclaration}
    (h : List.Forall₂ (fun i j => Paired a.PaddedBy (.interface i) (.interface j) ∧
      .interface j ∈ b.all) is js) :
    Padded (a.PutIn b is) (Scope.declaredFields is) (Scope.declaredFields js) := by
  induction h with
  | nil => exact .nil
  | @cons i j _ _ hij _ ih =>
    obtain ⟨hpair, hj⟩ := hij
    refine .append (hpair.rel.fields.with_mem.map _ ?_) (ih.imp ?_)
    · rintro f ⟨⟨hdangling, hvacant⟩, hf⟩
      exact ⟨hdangling, rfl, i, List.mem_cons_self, hvacant rfl, j, hj, hpair.name_eq.symm, hf⟩
    · rintro p ⟨hdangling, hname, k, hk, hvacant⟩
      exact ⟨hdangling, hname, k, List.mem_cons_of_mem _ hk, hvacant⟩

/-- What is put in somewhere behind an interface has a name that nothing else behind it has. -/
theorem PutIn.notMem_keys {name : String} {p : String × Field}
    (h : a.PutIn b (Scope.lineage { declarations := a } name) p) :
    p.1 ∉ (Scope.declaredFields (Scope.lineage { declarations := a } name)).keys := by
  intro hkey
  obtain ⟨i, hi, hvacant, -⟩ := h.place
  obtain ⟨j, hj, hdeclares⟩ := Scope.mem_keys_declaredFields.mp hkey
  obtain ⟨top, htop, hreach⟩ := mem_lineage_iff.mp hi
  obtain ⟨other, hother, hreach'⟩ := mem_lineage_iff.mp hj
  obtain rfl : other = top := Option.some.inj (hother.symm.trans htop)
  obtain ⟨hmem, -, hkind⟩ := findKind?_mem htop
  have himplements : other = .interface i ∨ a.Implements other (.interface i) :=
    (Relation.reflTransGen_iff_eq_or_transGen.mp hreach).imp_left Eq.symm
  obtain ⟨hown, hinherited⟩ := hvacant other hmem hkind himplements
  rcases Relation.reflTransGen_iff_eq_or_transGen.mp hreach' with rfl | hj
  · exact hown hdeclares
  · exact hinherited _ hj hdeclares

/-- An interface brings the same fields as before, and among them what is put in. -/
theorem padded_merged (h : Matches a.PaddedBy a b) (name : String) :
    Padded (a.PutIn b (Scope.lineage { declarations := a } name)) (a.merged name) (b.merged name) :=
  (padded_declaredFields (related_lineage h name)).ofPairs fun _ hp => hp.notMem_keys

section Padding

variable (h : Matches a.PaddedBy a b)

include h

theorem keeps_padded : Scope.keeps { declarations := b.resolveKinds } =
    Scope.keeps { declarations := a.resolveKinds } :=
  (h.resolveKinds (S := fun _ _ => True) fun _ _ _ => trivial).keeps_eq.symm

theorem resolve?_padded : Scope.resolve? { declarations := b.resolveKinds } =
    Scope.resolve? { declarations := a.resolveKinds } :=
  (h.resolveKinds (S := fun _ _ => True) fun _ _ _ => trivial).resolve?_eq.symm

theorem isSome_interface?_padded (name : String) :
    (Scope.interface? { declarations := b.resolveKinds } name).isSome =
      (a.findKind? .interface name).isSome := by
  rw [Scope.isSome_interface?, findKind?_resolveKinds, Option.isSome_map, h.isSome_findKind?]

/-- The fields that are put in are dropped. -/
theorem padded_fields (hpair : Paired a.PaddedBy d e) :
    Padded (fun f => Scope.keeps { declarations := a.resolveKinds } f = false)
      (a.resolve d).fields (b.resolve e).fields := by
  have hresolve : b.resolveField = a.resolveField := funext fun f => (h.resolveField_eq f).symm
  rw [fields_resolve, fields_resolve, hresolve]
  exact hpair.rel.fields.map _ fun f hf => keeps_of_dangling hf.1

theorem ownNames_padded (hpair : Paired a.PaddedBy d e) :
    Scope.ownNames { declarations := b.resolveKinds } (b.resolve e) =
      Scope.ownNames { declarations := a.resolveKinds } (a.resolve d) := by
  rw [Scope.ownNames, Scope.ownNames, keeps_padded h,
    (padded_fields h hpair).filter_eq fun _ hf => hf]

/-- What comes from an interface that a declaration lists, and among it what is put in. It is dropped, and
the declaration has no field of its name if it is not disturbed. -/
theorem padded_mergedFields {name : String} (hname : name ∈ d.interfaces) :
    Padded (fun p => Scope.keeps { declarations := a.resolveKinds } p.2 = false ∧
        (a.Undisturbed b d → p.2.name ∉ d.fields.map Field.name))
      (Scope.mergedFields { declarations := a.resolveKinds } name)
      (Scope.mergedFields { declarations := b.resolveKinds } name) := by
  have hresolve : b.resolveField = a.resolveField := funext fun f => (h.resolveField_eq f).symm
  rw [mergedFields_resolveKinds, mergedFields_resolveKinds, hresolve]
  refine (padded_merged h name).map _ ?_
  rintro p ⟨hdangling, hkey, i, hi, hvacant, j, hj, hsame, hp⟩
  have himplements : a.Implements d (.interface i) := implements_iff.mpr ⟨name, hname, i, rfl, hi⟩
  refine ⟨keeps_of_dangling hdangling, fun hundisturbed hown => ?_⟩
  rw [name_resolveField] at hown
  have hold := hundisturbed _ himplements _ hj hsame p.2 hp hown
  have hmem : .interface i ∈ a.all :=
    (findKind?_mem (interface?_eq_some_iff.mp (Scope.interface?_of_mem_lineage hi))).1
  exact (hvacant _ hmem rfl (.inl rfl)).1 (hkey ▸ hold)

theorem padded_listed (hpair : Paired a.PaddedBy d e) :
    Padded (fun f => Scope.keeps { declarations := a.resolveKinds } f = false ∧
        (a.Undisturbed b d → f.name ∉ d.fields.map Field.name))
      (((a.resolve d).interfaces.flatMap
        (Scope.mergedFields { declarations := a.resolveKinds })).map Prod.snd)
      (((b.resolve e).interfaces.flatMap
        (Scope.mergedFields { declarations := b.resolveKinds })).map Prod.snd) := by
  rw [interfaces_resolve, interfaces_resolve]
  refine (hpair.rel.interfaces.flatMap (fun name hname => padded_mergedFields h hname)
    fun name hname => ?_).map Prod.snd fun _ hp => hp
  have hnone : (Scope.interface? { declarations := b.resolveKinds } name).isSome = false := by
    rw [isSome_interface?_padded h, hname]
    rfl
  exact Scope.mergedFields_of_unknown (Option.not_isSome_iff_eq_none.mp (by simp [hnone]))

theorem addField_padded : Scope.addField { declarations := b.resolveKinds } =
    Scope.addField { declarations := a.resolveKinds } := by
  funext c f
  rw [Scope.addField, Scope.addField, resolve?_padded h]

theorem ownProperties_padded (hpair : Paired a.PaddedBy d e) (choice : IdentifierChoice) :
    Scope.ownProperties { declarations := b.resolveKinds } choice (b.resolve e).fields =
      Scope.ownProperties { declarations := a.resolveKinds } choice (a.resolve d).fields := by
  rw [Scope.ownProperties, Scope.ownProperties, addField_padded h]
  exact (padded_fields h hpair).foldl_eq (fun c f hf => Scope.addField_of_dropped hf c) _

/-- References that are put in leave every property of a model as it is. -/
theorem lookup_compose_padded (hpair : Paired a.PaddedBy d e)
    (choice : IdentifierChoice) (key : String) :
    (Scope.compose { declarations := b.resolveKinds } choice (b.resolve e)).lookup key =
      (Scope.compose { declarations := a.resolveKinds } choice (a.resolve d)).lookup key := by
  let s : Scope := { declarations := a.resolveKinds }
  let t : Scope := { declarations := b.resolveKinds }
  let own := s.ownProperties choice (a.resolve d).fields
  have hown : t.ownProperties choice (b.resolve e).fields = own := ownProperties_padded h hpair choice
  have hnames : t.ownNames (b.resolve e) = s.ownNames (a.resolve d) := ownNames_padded h hpair
  have hdistinct : own.properties.keys.Nodup := (s.sound_ownProperties choice _).distinct
  have hinherited : (t.inheritedFields (b.resolve e)).foldl t.addField ⟨own.claim, []⟩ =
      (s.inheritedFields (a.resolve d)).foldl s.addField ⟨own.claim, []⟩ := by
    have hadd : t.addField = s.addField := addField_padded h
    rw [Scope.inheritedFields, Scope.inheritedFields, hadd, hnames]
    exact ((padded_listed h hpair).filter _).foldl_eq
      (fun c f hf => Scope.addField_of_dropped hf.1 c) _
  rw [Scope.compose, Scope.compose, hown, Entries.lookup_putAll_of_nodup hdistinct,
    Entries.lookup_putAll_of_nodup hdistinct]
  by_cases hkey : key ∈ s.ownNames (a.resolve d)
  · have hsome : (own.properties.lookup key).isSome = true :=
      Entries.lookup_isSome_iff.mpr (Scope.mem_keys_ownProperties_iff.mpr hkey)
    rw [Option.or_of_isSome hsome, Option.or_of_isSome hsome]
  · have ha := (s.inherited_eq choice (a.resolve d)).2 key hkey
    have hb := (t.inherited_eq choice (b.resolve e)).2 key (hnames ▸ hkey)
    rw [hown, hinherited] at hb
    rw [ha, hb]

/-- Nor do they change the order of the properties if they do not disturb it. -/
theorem keys_compose_padded (hpair : Paired a.PaddedBy d e)
    (hundisturbed : a.Undisturbed b d) (choice : IdentifierChoice) :
    (Scope.compose { declarations := b.resolveKinds } choice (b.resolve e)).keys =
      (Scope.compose { declarations := a.resolveKinds } choice (a.resolve d)).keys := by
  have hcounts : Scope.counts { declarations := b.resolveKinds } (b.resolve e) =
      Scope.counts { declarations := a.resolveKinds } (a.resolve d) := by
    funext f
    rw [Scope.counts, Scope.counts, keeps_padded h, ownNames_padded h hpair]
  rw [Scope.keys_compose, Scope.keys_compose, ownNames_padded h hpair, hcounts,
    (padded_listed h hpair).filter_eq fun f hf => ?_]
  obtain ⟨hdropped, hnew⟩ := hf
  have hother : f.name ∉ Scope.ownNames { declarations := a.resolveKinds } (a.resolve d) := by
    intro hmem
    obtain ⟨g, hg, heq⟩ := List.mem_map.mp hmem
    have hfields := (List.mem_filter.mp hg).1
    rw [fields_resolve] at hfields
    obtain ⟨own, hown, rfl⟩ := List.mem_map.mp hfields
    exact hnew hundisturbed (heq ▸ (name_resolveField a own) ▸ List.mem_map_of_mem hown)
  simp [Scope.counts, hdropped, hother]

theorem ownTasks_padded : Scope.ownTasks { declarations := b.resolveKinds } =
    Scope.ownTasks { declarations := a.resolveKinds } := by
  funext f
  unfold Scope.ownTasks Scope.fieldTask
  rw [resolve?_padded h]

/-- An interface that is listed reaches the same as before. -/
theorem interfaceTasks_padded (hpair : Paired a.PaddedBy d e) {name : String}
    (hname : name ∈ d.interfaces) :
    (Scope.interfaceTasks { declarations := b.resolveKinds } (b.resolve e) name).filterMap Task.reach? =
      (Scope.interfaceTasks { declarations := a.resolveKinds } (a.resolve d) name).filterMap
        Task.reach? := by
  let s : Scope := { declarations := a.resolveKinds }
  let t : Scope := { declarations := b.resolveKinds }
  have hsome : (t.interface? name).isNone = (s.interface? name).isNone := by
    rw [← Option.not_isSome, ← Option.not_isSome, isSome_interface?_padded h,
      Scope.isSome_interface?, findKind?_resolveKinds, Option.isSome_map]
  have hown : ((b.resolve e).fields.filter t.keeps).map Field.name =
      ((a.resolve d).fields.filter s.keeps).map Field.name := ownNames_padded h hpair
  unfold Scope.interfaceTasks
  rw [hsome, hown, ownTasks_padded h]
  split
  · rfl
  · dsimp only
    rw [List.filterMap_cons, List.filterMap_cons, List.filterMap_flatMap, List.filterMap_flatMap,
      (padded_mergedFields h hname).flatMap_eq fun p hp => ?_]
    split
    · rfl
    · exact Scope.reach_ownTasks_of_dropped hp.1

theorem memberTasks_padded (union member : String) :
    (Scope.memberTasks { declarations := b.resolveKinds } union member).filterMap Task.reach? =
      (Scope.memberTasks { declarations := a.resolveKinds } union member).filterMap Task.reach? := by
  unfold Scope.memberTasks
  dsimp only
  rw [findKind?_resolveKinds, findKind?_resolveKinds, Option.isSome_map, Option.isSome_map,
    ← h.isSome_findKind?]

theorem recordTasks_padded (hpair : Paired a.PaddedBy d e) :
    ((b.resolve e).fields.flatMap (Scope.ownTasks { declarations := b.resolveKinds }) ++
        (b.resolve e).interfaces.flatMap
          (Scope.interfaceTasks { declarations := b.resolveKinds } (b.resolve e))).filterMap Task.reach? =
      ((a.resolve d).fields.flatMap (Scope.ownTasks { declarations := a.resolveKinds }) ++
        (a.resolve d).interfaces.flatMap
          (Scope.interfaceTasks { declarations := a.resolveKinds } (a.resolve d))).filterMap
            Task.reach? := by
  rw [interfaces_resolve, interfaces_resolve]
  simp only [List.filterMap_append, List.filterMap_flatMap]
  congr 1
  · rw [ownTasks_padded h]
    exact (padded_fields h hpair).flatMap_eq fun _ hf => Scope.reach_ownTasks_of_dropped hf
  · rw [hpair.rel.interfaces.flatMap_eq fun name hname => ?_]
    · exact List.flatMap_congr fun name hname => interfaceTasks_padded h hpair hname
    · have hnone : (Scope.interface? { declarations := b.resolveKinds } name).isNone = true := by
        rw [← Option.not_isSome, isSome_interface?_padded h, hname]
        rfl
      unfold Scope.interfaceTasks
      rw [if_pos hnone]
      rfl

theorem unionTasks_padded {members more : List String} (union : String)
    (hmembers : Padded (fun m => a.findKind? .object m = none) members more) :
    (more.flatMap (Scope.memberTasks { declarations := b.resolveKinds } union)).filterMap Task.reach? =
      (members.flatMap (Scope.memberTasks { declarations := a.resolveKinds } union)).filterMap
        Task.reach? := by
  rw [List.filterMap_flatMap, List.filterMap_flatMap, hmembers.flatMap_eq fun m hm => ?_]
  · exact List.flatMap_congr fun m _ => memberTasks_padded h union m
  · have hnone : (b.resolveKinds.findKind? .object m).isSome = false := by
      rw [findKind?_resolveKinds, Option.isSome_map, ← h.isSome_findKind?, hm]
      rfl
    unfold Scope.memberTasks
    rw [if_neg (by simp [hnone])]
    rfl

theorem tasks_padded (hpair : Paired a.PaddedBy d e) :
    (Scope.tasks { declarations := b.resolveKinds } (b.resolve e)).filterMap Task.reach? =
      (Scope.tasks { declarations := a.resolveKinds } (a.resolve d)).filterMap Task.reach? := by
  by_cases hunion : d.kind = .union
  · cases d with
    | union u =>
      cases e with
      | union v =>
        have hname : u.name = v.name := hpair.name_eq
        simp only [resolve, Scope.tasks, hname]
        exact unionTasks_padded h v.name hpair.rel.members
      | object | input | interface | enum | scalar => cases hpair.kind_eq
    | object | input | interface | enum | scalar => cases hunion
  · have hother : (b.resolve e).kind ≠ .union := by rwa [kind_resolve, ← hpair.kind_eq]
    rw [Scope.tasks_of_ne_union hother, Scope.tasks_of_ne_union (by rwa [kind_resolve])]
    exact recordTasks_padded h hpair

/-- References that are put in leave what is no model as it is. -/
theorem content_padded_of_not_isModel (hpair : Paired a.PaddedBy d e) (hmodel : d.isModel = false)
    (config : Config) : Scope.content { declarations := a.resolveKinds } config (a.resolve d) =
      Scope.content { declarations := b.resolveKinds } config (b.resolve e) := by
  cases d with
  | object | input | interface => cases hmodel
  | enum | scalar =>
    rw [← hpair.rel.fixed (by simp [Declaration.kind])]
    rfl
  | union u =>
    cases e with
    | union v =>
      have hmembers : Padded (fun m => a.findKind? .object m = none) u.members v.members :=
        hpair.rel.members
      have hfound : ∀ m, (b.resolveKinds.findKind? .object m).isSome =
          (a.resolveKinds.findKind? .object m).isSome := by
        intro m
        rw [findKind?_resolveKinds, findKind?_resolveKinds, Option.isSome_map, Option.isSome_map,
          h.isSome_findKind?]
      have hname : u.name = v.name := hpair.name_eq
      simp only [resolve, Scope.content, hfound, UnionDeclaration.definition, hname]
      rw [hmembers.filter_eq fun m hm => ?_]
      rw [findKind?_resolveKinds, hm]
      rfl
    | object | input | interface | enum | scalar => cases hpair.kind_eq

omit h in
theorem content_padded_of_isModel (hpair : Paired a.PaddedBy d e) (hmodel : d.isModel = true)
    (config : Config) : Scope.content { declarations := b.resolveKinds } config (b.resolve e) =
      .model ⟨d.name, Scope.compose { declarations := b.resolveKinds } (config.choice d.name)
        (b.resolve e), true⟩ := by
  have hmodel' : (b.resolve e).isModel = true := by
    rwa [isModel_resolve, Declaration.isModel, ← hpair.kind_eq]
  rw [Scope.content_of_isModel hmodel', name_resolve, ← hpair.name_eq]

/-- References that are put in change nothing about a definition but the order of a model's properties. -/
theorem content_padded (hpair : Paired a.PaddedBy d e) (config : Config) :
    Definition.Reordered (Scope.content { declarations := a.resolveKinds } config (a.resolve d))
      (Scope.content { declarations := b.resolveKinds } config (b.resolve e)) := by
  cases hmodel : d.isModel with
  | false =>
    rw [content_padded_of_not_isModel h hpair hmodel]
    exact .refl _
  | true =>
    rw [content_padded_of_isModel hpair hmodel,
      Scope.content_of_isModel (by rwa [isModel_resolve]), name_resolve]
    refine .model (Entries.perm_of_lookup_eq (Scope.nodup_keys_compose _ _ _)
      (Scope.nodup_keys_compose _ _ _) fun key => ?_)
    exact (lookup_compose_padded h hpair _ key).symm

/-- They leave the order alone too where they do not disturb it. -/
theorem content_undisturbed (hpair : Paired a.PaddedBy d e)
    (hundisturbed : a.Undisturbed b d) (config : Config) :
    Scope.content { declarations := b.resolveKinds } config (b.resolve e) =
      Scope.content { declarations := a.resolveKinds } config (a.resolve d) := by
  cases hmodel : d.isModel with
  | false => exact (content_padded_of_not_isModel h hpair hmodel config).symm
  | true =>
    rw [content_padded_of_isModel hpair hmodel,
      Scope.content_of_isModel (by rwa [isModel_resolve]), name_resolve]
    rw [Entries.eq_of_lookup_eq (Scope.nodup_keys_compose _ _ _)
      (keys_compose_padded h hpair hundisturbed _) (lookup_compose_padded h hpair _)]

/-- The surveys of both schemas reach the same names, and under each one a declaration and the same with
references put in. -/
theorem related_ofRoots : Entries.Related
    (fun x y => ∃ d e, Paired a.PaddedBy d e ∧ x = a.resolve d ∧ y = b.resolve e)
    (Survey.ofRoots { declarations := a.resolveKinds }).reached
    (Survey.ofRoots { declarations := b.resolveKinds }).reached := by
  refine Survey.related_run (fun k name => ?_) ?_ ?_ ?_ .nil
  · have hrel := h.findKind? k name
    rw [findKind?_resolveKinds, findKind?_resolveKinds]
    generalize a.findKind? k name = x, b.findKind? k name = y at hrel
    cases hrel with
    | none => exact .none
    | some hpair => exact .some ⟨_, _, hpair, rfl, rfl⟩
  · rintro _ _ ⟨d, e, hpair, rfl, rfl⟩
    rw [name_resolve, name_resolve, hpair.name_eq]
  · rintro _ _ ⟨d, e, hpair, rfl, rfl⟩
    exact (tasks_padded h hpair).symm
  · have hroots := (h.resolveKinds (S := fun _ _ => True) fun _ _ _ => trivial).roots
    change List.filterMap _ (a.resolveKinds.roots.map _) = List.filterMap _ (b.resolveKinds.roots.map _)
    generalize a.resolveKinds.roots = xs, b.resolveKinds.roots = ys at hroots
    induction hroots with
    | nil => rfl
    | cons hpair _ ih => rw [List.map_cons, List.map_cons, hpair.name_eq, hpair.kind_eq,
        List.filterMap_cons, List.filterMap_cons, ih]

end Padding

/-- References that lead nowhere change nothing about what a schema is compiled to, however many of them are
put in: fields of unknown types, union members that are no objects, and interfaces that nothing declares.
A field that is put into an interface has to have a vacant name. Only the order of properties may change,
and only in a record that declares a field of such a name itself. -/
theorem compile_padded (distinct : a.names.Nodup) (h : Matches a.PaddedBy a b) (config : Config) :
    ∃ c c', a.compile config = .ok c ∧ b.compile config = .ok c' ∧
      Entries.Related Definition.Reordered c.registry.entries c'.registry.entries ∧
      ∀ d ∈ a.all, a.Undisturbed b d → c'.registry.find? d.name = c.registry.find? d.name := by
  have hdistinct : b.names.Nodup := h.names_eq ▸ distinct
  obtain ⟨c, hc, hyields⟩ := yields_compile distinct config
  obtain ⟨c', hc', hyields'⟩ := yields_compile hdistinct config
  have hrelated : Entries.Related Definition.Reordered c.registry.entries c'.registry.entries := by
    rw [compile_of_distinct distinct config] at hc
    rw [compile_of_distinct hdistinct config] at hc'
    rw [← Except.ok.inj hc, ← Except.ok.inj hc']
    refine (related_ofRoots h).map ?_
    rintro _ _ ⟨d, e, hpair, rfl, rfl⟩
    exact content_padded h hpair config
  refine ⟨c, c', hc, hc', hrelated, fun d hd hundisturbed => ?_⟩
  obtain ⟨e, he, hpair⟩ := h.exists_of_mem hd
  have hkeys : c.registry.keys = c'.registry.keys := hrelated.keys_eq
  by_cases hr : d.name ∈ c.registry.keys
  · have hr' : e.name ∈ c'.registry.keys := hpair.name_eq ▸ hkeys ▸ hr
    rw [hyields.found d hd hr, hpair.name_eq, hyields'.found e he hr',
      content_undisturbed h hpair hundisturbed]
  · have hnone : c.registry.find? d.name = none := Entries.lookup_eq_none_iff.mpr hr
    have hnone' : c'.registry.find? d.name = none :=
      Entries.lookup_eq_none_iff.mpr fun hmem => hr (hkeys ▸ hmem)
    rw [hnone, hnone']

/-- An object with a field of its own and one of an interface, and references put in at every place: into
the object a field under the name of the inherited one. -/
theorem compile_padded_user :
    let email : Field := ⟨"email", .named "String", .unknown⟩
    let id : Field := ⟨"id", .nonNull (.named "ID"), .unknown⟩
    let user : RecordDeclaration := ⟨"User", [email], ["Node"]⟩
    let a : Declarations :=
      { objects := [user], interfaces := [⟨"Node", [id], []⟩], unions := [⟨"Any", ["User"]⟩] }
    let b : Declarations :=
      { objects := [⟨"User", [⟨"id", .named "Gone", .unknown⟩, email], ["Missing", "Node"]⟩]
        interfaces := [⟨"Node", [id, ⟨"tags", .list (.named "Gone"), .unknown⟩], []⟩]
        unions := [⟨"Any", ["User", "Node"]⟩] }
    a.names.Nodup ∧ Matches a.PaddedBy a b ∧ .object user ∈ a.all ∧ a.Undisturbed b (.object user) ∧
    ∃ c c', a.compile {} = .ok c ∧ b.compile {} = .ok c' ∧
      Entries.Related Definition.Reordered c.registry.entries c'.registry.entries ∧
      c'.registry.find? "User" = c.registry.find? "User" := by
  intro email id user a b
  have distinct : a.names.Nodup := by decide
  have hvacant : a.Vacant (.interface ⟨"Node", [id], []⟩) "tags" := vacant_of_unused (by decide) _
  have hinterfaces : Padded (fun name => a.findKind? .interface name = none)
      ["Node"] ["Missing", "Node"] := .insert (by rfl) (.keep "Node" .nil)
  have hmembers : Padded (fun name => a.findKind? .object name = none)
      ["User"] ["User", "Node"] := .keep "User" (.insert (by rfl) .nil)
  have hmatches : Matches a.PaddedBy a b := by
    intro k
    cases k with
    | object =>
      refine .cons ⟨rfl, rfl, ?_, hinterfaces, .nil, by simp [Declaration.kind]⟩ .nil
      exact .insert ⟨⟨rfl, rfl⟩, fun hkind => by cases hkind⟩ (.keep email .nil)
    | interface =>
      refine .cons ⟨rfl, rfl, ?_, .nil, .nil, by simp [Declaration.kind]⟩ .nil
      exact .keep id (.insert ⟨⟨rfl, rfl⟩, fun _ => hvacant⟩ .nil)
    | union =>
      exact .cons ⟨rfl, rfl, .nil, .nil, hmembers, by simp [Declaration.kind]⟩ .nil
    | input | enum | scalar => exact .nil
  have hmem : .object user ∈ a.all := List.mem_cons_self
  have hundisturbed : a.Undisturbed b (.object user) := by
    have hnames : ∀ i ∈ a.all, ∀ j ∈ b.all, j.name = i.name → ∀ f ∈ j.fields,
        f.name ∈ (Declaration.object user).fields.map Field.name →
          f.name ∈ i.fields.map Field.name := by decide
    intro i hi
    exact hnames i (findKind?_mem (findKind?_of_implements hi)).1
  obtain ⟨c, c', hc, hc', hrelated, hsame⟩ := compile_padded distinct hmatches {}
  exact ⟨distinct, hmatches, hmem, hundisturbed, c, c', hc, hc', hrelated,
    hsame _ hmem hundisturbed⟩

/-- A field of an unknown type in an interface hides the one that the interface inherits under its name,
from what implements the interface but not from the interface. -/
theorem compile_padded_hidden :
    let object : RecordDeclaration := ⟨"T", [⟨"z", .named "Int", .unknown⟩], ["B"]⟩
    let y : Field := ⟨"y", .named "Int", .unknown⟩
    let gone : Field := ⟨"x", .named "Gone", .unknown⟩
    let inherited : RecordDeclaration := ⟨"A", [⟨"x", .named "String", .unknown⟩], []⟩
    let a : Declarations := { objects := [object], interfaces := [inherited, ⟨"B", [y], ["A"]⟩] }
    let b : Declarations := { objects := [object], interfaces := [inherited, ⟨"B", [y, gone], ["A"]⟩] }
    a.names.Nodup ∧ a.Dangling gone ∧
      ∃ c c' ps qs, a.compile {} = .ok c ∧ b.compile {} = .ok c' ∧
        c.registry.find? "B" = c'.registry.find? "B" ∧
        c.registry.find? "T" = some (.model ⟨"T", ps, true⟩) ∧
        c'.registry.find? "T" = some (.model ⟨"T", qs, true⟩) ∧
        ps.lookup "x" = some (.maybeNull .string) ∧ qs.lookup "x" = none := by
  intro object y gone inherited a b
  let ps : Entries Descriptor := [("x", .maybeNull .string), ("y", .maybeNull .number)]
  let qs : Entries Descriptor := [("y", .maybeNull .number), ("z", .maybeNull .number)]
  let x' : Field := ⟨"x", .named "String", .primitive⟩
  let y' : Field := ⟨"y", .named "Int", .primitive⟩
  let node : RecordDeclaration := ⟨"A", [x'], []⟩
  have distinct : a.names.Nodup := by decide
  have distinct' : b.names.Nodup := by decide
  have unset : a.Unset := by simp [Unset, a, all, Declaration.fields, object, inherited, y]
  have unset' : b.Unset := by simp [Unset, b, all, Declaration.fields, object, inherited, y, gone]
  have hobject : .object object ∈ a.all := List.mem_cons_self
  have hobject' : .object object ∈ b.all := List.mem_cons_self
  have hinterface : .interface ⟨"B", [y], ["A"]⟩ ∈ a.all := by simp [a, all]
  have hinterface' : .interface ⟨"B", [y, gone], ["A"]⟩ ∈ b.all := by simp [b, all]
  have hB : (a.resolve (.interface ⟨"B", [y], ["A"]⟩)).interfaces.map
      (Scope.lineage { declarations := a.resolveKinds }) = [[node]] := by cbv
  have hB' : (b.resolve (.interface ⟨"B", [y, gone], ["A"]⟩)).interfaces.map
      (Scope.lineage { declarations := b.resolveKinds }) = [[node]] := by cbv
  have hT : (a.resolve (.object object)).interfaces.map
      (Scope.lineage { declarations := a.resolveKinds }) = [[node, ⟨"B", [y'], ["A"]⟩]] := by cbv
  have hT' : (b.resolve (.object object)).interfaces.map
      (Scope.lineage { declarations := b.resolveKinds }) = [[node, ⟨"B", [y', gone], ["A"]⟩]] := by cbv
  obtain ⟨c, hc, hyields⟩ := yields_compile distinct {}
  obtain ⟨c', hc', hyields'⟩ := yields_compile distinct' {}
  have hclosed := closed_compile distinct unset hc
  have hclosed' := closed_compile distinct' unset' hc'
  have hin := hclosed.roots _ hobject (by decide) (by decide)
  have hin' := hclosed'.roots _ hobject' (by decide) (by decide)
  have hfind : c.registry.find? "B" = some (.model ⟨"B", ps, true⟩) :=
    hyields.find?_composeAlong hinterface rfl
      (hclosed.interfaces _ hobject hin "B" List.mem_cons_self (by decide)) hB
  have hfind' : c'.registry.find? "B" = some (.model ⟨"B", ps, true⟩) :=
    hyields'.find?_composeAlong hinterface' rfl
      (hclosed'.interfaces _ hobject' hin' "B" List.mem_cons_self (by decide)) hB'
  exact ⟨distinct, ⟨rfl, rfl⟩, c, c', ("x", .maybeNull .string) :: qs, qs, hc, hc', hfind.trans hfind'.symm,
    hyields.find?_composeAlong hobject rfl hin hT, hyields'.find?_composeAlong hobject' rfl hin' hT', rfl, rfl⟩

end Declarations

end CheckedModels
