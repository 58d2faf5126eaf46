import CheckedModels.Proofs.Compile.Closure

/-! Names that are declared more than once. One declaration of each name is compiled, the first of its
category. Which category that is depends on what the compilation comes to first, unless one of them
cannot be rivalled. -/
namespace CheckedModels

/-- How many categories are searched earlier. -/
def DeclarationKind.rank : DeclarationKind → Nat
  | object => 0
  | input => 1
  | interface => 2
  | union => 3
  | enum => 4
  | scalar => 5

namespace Declarations

variable {ds : Declarations} {name : String} {w : Declaration}

theorem pairwise_rank_all (ds : Declarations) :
    ds.all.Pairwise fun a b => a.kind.rank ≤ b.kind.rank := by
  have hall : ds.all =
      [.object, .input, .interface, .union, .enum, .scalar].flatMap ds.category := by
    simp [all_eq]
  have hsorted : [.object, .input, .interface, .union, .enum, .scalar].Pairwise
      fun a b : DeclarationKind => a.rank ≤ b.rank := by decide
  rw [hall, List.pairwise_flatMap]
  refine ⟨fun k _ => ?_, hsorted.imp fun {j k} hle a ha b hb => ?_⟩
  · exact List.pairwise_of_forall_mem_list fun a ha b hb => by
      rw [kind_of_mem_category ha, kind_of_mem_category hb]
  · rwa [kind_of_mem_category ha, kind_of_mem_category hb]

/-- A category that is searched earlier than that of the declaration that is found does not have the
name. -/
theorem findKind?_eq_none_of_rank_lt (h : ds.find? name = some w) {k : DeclarationKind}
    (hk : k.rank < w.kind.rank) : ds.findKind? k name = none := by
  cases he : ds.findKind? k name with
  | none => rfl
  | some e =>
    obtain ⟨hmem, rfl, rfl⟩ := findKind?_mem he
    obtain ⟨-, before, after, hall, hnone⟩ := List.find?_eq_some_iff_append.mp h
    have hsorted := ds.pairwise_rank_all
    rw [hall] at hmem hsorted
    have hlater : e ∈ w :: after := by
      refine (List.mem_append.mp hmem).resolve_left fun hbefore => ?_
      simpa using hnone e hbefore
    rcases List.mem_cons.mp hlater with rfl | hafter
    · exact absurd hk (Nat.lt_irrefl _)
    · have hle := List.rel_of_pairwise_cons (List.pairwise_append.mp hsorted).2.1 hafter
      omega

theorem findKind?_of_find? (h : ds.find? name = some w) : ds.findKind? w.kind name = some w := by
  obtain ⟨hw, before, after, hall, hnone⟩ := List.find?_eq_some_iff_append.mp h
  have hskip : before.find? (fun d => d.name == name && d.kind == w.kind) = none := by
    refine List.find?_eq_none.mpr fun d hd => ?_
    have hne : (d.name == name) = false := by simpa using hnone d hd
    simp [hne]
  rw [findKind?, hall, List.find?_append, hskip]
  simp [hw]

theorem name_ne_of_findKind?_eq_none {k : DeclarationKind} (h : ds.findKind? k name = none)
    {d : Declaration} (hd : d ∈ ds.category k) : d.name ≠ name := by
  rw [findKind?_eq] at h
  simpa using List.find?_eq_none.mp h d hd

/-- The passes of a compilation. -/
def passes : List DeclarationKind := [.input, .object, .union, .enum]

theorem roots_eq_flatMap (ds : Declarations) : ds.roots = passes.flatMap ds.category := by
  simp [roots_eq, passes]

/-- Nothing but a root leads to another declaration of the name than this one. -/
structure Leading (ds : Declarations) (name : String) (w : Declaration) : Prop where
  found : ds.findKind? w.kind name = some w
  objects : ∀ e, ds.findKind? .object name = some e → e = w
  interfaces : ∀ e, ds.findKind? .interface name = some e → e = w
  fields : ∀ d ∈ ds.all, ∀ f ∈ d.fields, ∀ kind, f.request? = some (name, kind) → kind = w.kind

namespace Leading

/-- What a declaration asks for under the name is the leading declaration. -/
theorem eq_of_asks (h : ds.Leading name w) {d e : Declaration} (hd : d ∈ ds.all)
    (hasks : Scope.Asks { declarations := ds } d e) (hname : e.name = name) : e = w := by
  subst hname
  have hfound : ds.findKind? e.kind e.name = some e := by
    obtain ⟨_, _, -, he⟩ := hasks
    obtain ⟨-, rfl, rfl⟩ := findKind?_mem he
    exact he
  have hfield : ∀ d' ∈ ds.all, ∀ f ∈ d'.fields, f.request? = some (e.name, e.kind) → e = w := by
    intro d' hd' f hf hrequest
    rw [h.fields d' hd' f hf e.kind hrequest] at hfound
    exact Option.some.inj (hfound.symm.trans h.found)
  rcases hasks.cases with hobject | ⟨f, hf, hrequest⟩ | ⟨i, -, -, ⟨hinterface, -⟩ | ⟨f, hf, hrequest⟩⟩
  · exact h.objects e (hobject ▸ hfound)
  · exact hfield d hd f hf hrequest
  · exact h.interfaces e (hinterface ▸ hfound)
  · obtain ⟨j, hj, hmem⟩ := Scope.exists_interface_of_mem_mergedFields hf
    exact hfield _ hj f.2 hmem hrequest

/-- From roots without another declaration of the name, none is reached. -/
theorem eq_of_mem_run (h : ds.Leading name w) {roots : List Declaration}
    (hroots : ∀ d ∈ roots, d.name = name → d.kind = w.kind) {e : String × Declaration}
    (he : e ∈ (Survey.run { declarations := ds }
      (roots.map fun d => .reach d.kind d.name) {}).reached) (hname : e.2.name = name) : e.2 = w := by
  refine (Survey.forall_reached_run (P := fun d => d ∈ ds.all ∧ (d.name = name → d = w))
    (fun d e hd hasks => ?_) (fun kind other d hm hd => ?_) (by simp) e he).2 hname
  · obtain ⟨_, _, -, hfound⟩ := id hasks
    exact ⟨(findKind?_mem hfound).1, h.eq_of_asks hd.1 hasks⟩
  · obtain ⟨root, hroot, heq⟩ := List.mem_map.mp hm
    obtain ⟨rfl, rfl⟩ := Task.reach.inj heq
    obtain ⟨hmem, hother, -⟩ := findKind?_mem hd
    refine ⟨hmem, fun hn => ?_⟩
    have hn : root.name = name := hother.symm.trans hn
    rw [hn, hroots root hroot hn] at hd
    exact Option.some.inj (hd.symm.trans h.found)

/-- The leading declaration is the one that is reached if no other declaration of the name is in the
passes up to its own. -/
theorem eq_of_mem_reached (h : ds.Leading name w) (before : List DeclarationKind)
    {after : List DeclarationKind} (hpasses : passes = before ++ after)
    (hw : w.kind ∈ before ∨ after = [])
    (hbefore : ∀ k ∈ before, k ≠ w.kind → ds.findKind? k name = none) {d : Declaration}
    (hd : (name, d) ∈ (Survey.ofRoots { declarations := ds }).reached) : d = w := by
  let s : Scope := { declarations := ds }
  let tasks : List DeclarationKind → List Task := fun kinds =>
    (kinds.flatMap ds.category).map fun d => .reach d.kind d.name
  let v := Survey.run s (tasks before) {}
  have hsplit : Survey.ofRoots s = Survey.run s (tasks after) v := by
    simp only [Survey.ofRoots, s, v, tasks, roots_eq_flatMap, hpasses, List.flatMap_append,
      List.map_append, Survey.run_append]
  have hearly : ∀ e ∈ v.reached, e.2.name = name → e.2 = w := by
    refine fun e he => h.eq_of_mem_run (fun d hd hname => ?_) he
    obtain ⟨k, hk, hd⟩ := List.mem_flatMap.mp hd
    by_contra hne
    rw [kind_of_mem_category hd] at hne
    exact name_ne_of_findKind?_eq_none (hbefore k hk hne) hd hname
  have hname : d.name = name := ds.sound_ofRoots.name_eq hd
  rcases hw with hw | rfl
  · have hn : name ∈ v.names := by
      obtain ⟨hmem, hwname, -⟩ := findKind?_mem h.found
      have hroot : w ∈ before.flatMap ds.category :=
        List.mem_flatMap.mpr ⟨w.kind, hw, mem_all_iff.mp hmem⟩
      exact Survey.mem_names_run (List.mem_map.mpr ⟨w, hroot, by rw [hwname]⟩) h.found {}
    obtain ⟨e, he, heq⟩ := List.mem_map.mp hn
    have hlater : e ∈ (Survey.ofRoots s).reached := by
      rw [hsplit]
      exact (Survey.prefix_run _ v).subset he
    obtain rfl : e = (name, d) := ds.sound_ofRoots.eq_of_mem hlater hd heq
    exact hearly _ he hname
  · have hnone : tasks [] = [] := rfl
    rw [hsplit, hnone, Survey.run_nil] at hd
    exact hearly _ hd hname

end Leading

/-- No other category competes for the name with the one that is searched first: it is not both an input
and an object, nor an interface and anything else but a scalar, and no field that refers to it was given
another kind by hand. -/
structure Unrivalled (ds : Declarations) (name : String) : Prop where
  inputs : ds.findKind? .input name = none ∨ ds.findKind? .object name = none
  interfaces : ds.findKind? .interface name = none ∨
    ∀ k, k ≠ .interface → k ≠ .scalar → ds.findKind? k name = none
  fields : ∀ d ∈ ds.all, ∀ f ∈ d.fields, f.typeName = name → ∀ k, f.kind.declared? = some k →
    (ds.find? name).map Declaration.kind = some k

namespace Unrivalled

/-- A field that asks for the name asks for the category that is searched first. -/
theorem kind_of_request? (h : ds.Unrivalled name) (hw : ds.find? name = some w) {d : Declaration}
    (hd : d ∈ ds.resolveKinds.all) {f : Field} (hf : f ∈ d.fields) {kind : DeclarationKind}
    (hrequest : f.request? = some (name, kind)) : kind = w.kind := by
  obtain ⟨o, ho, rfl⟩ := mem_all_resolveKinds_iff.mp hd
  rw [fields_resolve] at hf
  obtain ⟨g, hg, rfl⟩ := List.mem_map.mp hf
  by_cases hunknown : g.kind = .unknown
  · obtain ⟨-, -, e, he, rfl⟩ := (request?_resolveField hunknown).mp hrequest
    rw [Option.some.inj (he.symm.trans hw)]
  · rw [resolveField, if_neg hunknown] at hrequest
    obtain ⟨k, hk, heq⟩ := Option.map_eq_some_iff.mp hrequest
    obtain ⟨hname, rfl⟩ := Prod.mk.inj heq
    simpa [hw, eq_comm] using h.fields o ho g hg hname k hk

theorem leading (h : ds.Unrivalled name) (hw : ds.find? name = some w) :
    ds.resolveKinds.Leading name (ds.resolve w) := by
  have hfound : ds.findKind? w.kind name = some w := findKind?_of_find? hw
  have hunique : ∀ k, (ds.findKind? k name ≠ none → w.kind = k) → ∀ e,
      ds.resolveKinds.findKind? k name = some e → e = ds.resolve w := by
    intro k hk e he
    rw [findKind?_resolveKinds] at he
    obtain ⟨o, ho, rfl⟩ := Option.map_eq_some_iff.mp he
    rw [← hk (by simp [ho]), hfound] at ho
    rw [Option.some.inj ho]
  refine ⟨?_, hunique .object fun ho => ?_, hunique .interface fun hi => ?_, ?_⟩
  · rw [kind_resolve, findKind?_resolveKinds, hfound]
    rfl
  · by_contra hne
    refine ho (findKind?_eq_none_of_rank_lt hw ?_)
    cases hk : w.kind <;> simp_all [DeclarationKind.rank]
  · by_contra hne
    have hnone := h.interfaces.resolve_left hi
    by_cases hs : w.kind = .scalar
    · exact hi (findKind?_eq_none_of_rank_lt hw (by simp [hs, DeclarationKind.rank]))
    · simp [hnone w.kind hne hs] at hfound
  · intro d hd f hf kind hrequest
    rw [kind_resolve]
    exact h.kind_of_request? hw hd hf hrequest

/-- The declaration that is searched first is the one that is compiled. -/
theorem eq_of_mem_reached (h : ds.Unrivalled name) (hw : ds.find? name = some w) {d : Declaration}
    (hd : (name, d) ∈ (Survey.ofRoots { declarations := ds.resolveKinds }).reached) :
    d = ds.resolve w := by
  have hlead := h.leading hw
  have hfound : ds.findKind? w.kind name = some w := findKind?_of_find? hw
  have hearlier : ∀ k : DeclarationKind, k.rank < w.kind.rank →
      ds.resolveKinds.findKind? k name = none := by
    intro k hk
    rw [findKind?_resolveKinds, findKind?_eq_none_of_rank_lt hw hk]
    rfl
  -- The passes up to that of `w`, or all of them where `w` is no root.
  cases hk : w.kind with
  | input => exact hlead.eq_of_mem_reached [.input] rfl (by simp [hk]) (by simp [hk]) hd
  | object =>
    refine hlead.eq_of_mem_reached [.input, .object] rfl (by simp [hk]) ?_ hd
    have hinput := h.inputs.resolve_right (by simp [← hk, hfound])
    simp [hk, findKind?_resolveKinds, hinput]
  | interface =>
    refine hlead.eq_of_mem_reached passes (by simp) (.inr rfl) ?_ hd
    have hrival := h.interfaces.resolve_left (by simp [← hk, hfound])
    simp [passes, findKind?_resolveKinds, hrival]
  | union =>
    refine hlead.eq_of_mem_reached [.input, .object, .union] rfl (by simp [hk]) ?_ hd
    rw [hk] at hearlier
    simp [hk, hearlier .input (by decide), hearlier .object (by decide)]
  | enum =>
    refine hlead.eq_of_mem_reached passes (by simp) (.inr rfl) ?_ hd
    rw [hk] at hearlier
    simp [passes, hk, hearlier .input (by decide), hearlier .object (by decide),
      hearlier .union (by decide)]
  | scalar =>
    refine hlead.eq_of_mem_reached passes (by simp) (.inr rfl) ?_ hd
    rw [hk] at hearlier
    simp [passes, hk, hearlier .input (by decide), hearlier .object (by decide),
      hearlier .union (by decide), hearlier .enum (by decide)]

end Unrivalled

/-- What a declaration is compiled into, next to the models of a registry. -/
def definition (ds : Declarations) (config : Config) (r : Registry) : Declaration → Definition
  | .union u => u.definition
    ((u.members.filter fun m => (ds.findKind? .object m).isSome && (r.model? m).isSome).map .named)
  | .enum e => e.definition
  | .scalar e => e.definition
  | d => .model ⟨d.name, Scope.compose { declarations := ds.resolveKinds } (config.choice d.name)
    (ds.resolve d), true⟩

theorem isSome_find?_of_findKind? {k : DeclarationKind} {d : Declaration}
    (h : ds.findKind? k name = some d) : (ds.find? name).isSome = true := by
  obtain ⟨hmem, hname, -⟩ := findKind?_mem h
  exact List.find?_isSome.mpr ⟨d, hmem, by simpa using hname⟩

theorem isSome_model? {s : Scope} {v : Survey} {config : Config} {r : Registry}
    (h : ∀ name, r.find? name = (v.reached.lookup name).map (v.content s config)) (name : String) :
    (r.model? name).isSome = v.hasModel name := by
  rw [Registry.model?, h, Survey.hasModel]
  cases v.reached.lookup name with
  | none => rfl
  | some d => cases d <;> rfl

theorem content_resolve {v : Survey} {config : Config} {r : Registry}
    (hmodels : ∀ name, (r.model? name).isSome = v.hasModel name) (d : Declaration) :
    v.content { declarations := ds.resolveKinds } config (ds.resolve d) =
      ds.definition config r d := by
  cases d with
  | union u =>
    simp only [resolve, Survey.content, Survey.alternatives, definition, findKind?_resolveKinds,
      Option.isSome_map, hmodels]
  | object | input | interface | enum | scalar => rfl

/-- What is compiled under a name is made of the first declaration of its category. It is the
declaration that is searched first, the one by which the fields that refer to it are classified, unless
another category competes for the name. -/
theorem compile_first (ds : Declarations) (config : Config) : ∃ c, ds.compile config = .ok c ∧
    ∀ name made, c.registry.find? name = some made → ∃ d, ds.findKind? d.kind name = some d ∧
      made = ds.definition config c.registry d ∧
      (ds.Unrivalled name → ds.find? name = some d ∧
        ds.kindOf name = (builtinKind? name).getD d.kind.toReferenced) := by
  obtain ⟨c, hc, hfind⟩ := ds.find?_compile config
  refine ⟨c, hc, fun name made hmade => ?_⟩
  rw [hfind] at hmade
  obtain ⟨e, he, rfl⟩ := Option.map_eq_some_iff.mp hmade
  have hreached := Entries.mem_of_lookup he
  have hfound := ds.resolveKinds.sound_ofRoots.found _ hreached
  rw [findKind?_resolveKinds] at hfound
  obtain ⟨d, hd, rfl⟩ := Option.map_eq_some_iff.mp hfound
  rw [kind_resolve] at hd
  refine ⟨d, hd, content_resolve (isSome_model? hfind) d, fun h => ?_⟩
  obtain ⟨w, hw⟩ := Option.isSome_iff_exists.mp (isSome_find?_of_findKind? hd)
  -- A declaration and its category are not changed by the kinds of its fields.
  have hkind : d.kind = w.kind := by
    rw [← kind_resolve, h.eq_of_mem_reached hw hreached, kind_resolve]
  have heq : ds.find? name = some d := by
    rwa [hkind, findKind?_of_find? hw, ← hw] at hd
  refine ⟨heq, ?_⟩
  rw [kindOf, heq]
  cases builtinKind? name <;> rfl

/-- Of an input and an object of one name, the object is searched first, and the fields that refer to
the name are classified by it. The model has the fields of the input. -/
theorem compile_input_first :
    let input : InputDeclaration := ⟨"A", [⟨"x", .named "Int", .unknown⟩]⟩
    let object : RecordDeclaration := ⟨"A", [⟨"y", .named "String", .unknown⟩], []⟩
    let ds : Declarations := { objects := [object], inputs := [input] }
    let r : Registry := ⟨[("A", .model ⟨"A", [("x", .maybeNull .number)], true⟩)]⟩
    ds.find? "A" = some (.object object) ∧ ds.kindOf "A" = .object ∧
      ds.compile {} = .ok ⟨r, [.compiled 1]⟩ ∧
      r.find? "A" ≠ some (ds.definition {} r (.object object)) := by
  refine ⟨rfl, rfl, ?_, ?_⟩ <;> decide +kernel

end Declarations

end CheckedModels
