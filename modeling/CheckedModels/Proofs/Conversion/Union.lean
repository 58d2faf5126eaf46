import CheckedModels.Proofs.Conversion.Choice

/-! What a union accepts, and what it makes of a value. The order of the alternatives decides only between
those that accept. -/
namespace CheckedModels

theorem Outcome.decides_of_avoids {x : Outcome} (h : ∀ fault, Avoids fault x) : Decides (∃ w, x = .ok w) x := by
  rcases x with (issues | fault) | w
  · exact .rejected nofun issues
  · exact absurd rfl (h fault)
  · exact .accepted ⟨w, rfl⟩ w

namespace Registry

/-- What a descriptor itself needs to be used: names are registered, maps hold models, models are sealed,
and no union is part of its own name. -/
structure Sound (r : Registry) (d : Descriptor) : Prop where
  found : ∀ key, d = .named key → ∃ definition, r.find? key = some definition
  record : ∀ item, d = .map item → ∃ m, r.record? item = some m
  isSealed : ∀ m, r.record? d = some m → m.isSealed = true
  ends : ∀ key u, d = .named key → r.find? key = some (.union u) → ∀ a ∈ u.alternatives, ¬ r.Mentions a key

/-- All that can be reached is sound. -/
def AllSound (r : Registry) (d : Descriptor) : Prop := ∀ e, Relation.ReflTransGen r.Part d e → r.Sound e

def Belongs (r : Registry) (ds : List Descriptor) (v : Value) : Prop :=
  ∃ key m serial name attributes held, .named key ∈ ds ∧ r.find? key = some (.model m) ∧
    v = .instance serial key name attributes held

/-- The first of the descriptors that accepts the value makes this of it. -/
def FirstMakes (r : Registry) (ds : List Descriptor) (v w : Value) : Prop :=
  ∃ before a after, ds = before ++ a :: after ∧ r.isValid a v = .ok true ∧ r.create a v = .ok w ∧
    ∀ b ∈ before, r.isValid b v = .ok false

variable {r : Registry} {d e a : Descriptor} {ds : List Descriptor} {key other : String} {u u' : Union}
  {v w : Value}

namespace Sound

theorem layer (hnamed : ∀ key, d ≠ .named key) (hmap : ∀ item, d ≠ .map item) : r.Sound d where
  found key h := absurd h (hnamed key)
  record item h := absurd h (hmap item)
  isSealed m hm := by
    obtain ⟨key, h, -⟩ := record?_eq_some_iff.mp hm
    exact absurd h (hnamed key)
  ends key _ h := absurd h (hnamed key)

theorem model {m : Model} (hm : r.find? key = some (.model m)) (isSealed : m.isSealed = true) :
    r.Sound (.named key) where
  found := by
    rintro _ ⟨⟩
    exact ⟨_, hm⟩
  record := nofun
  isSealed m' hm' := by
    obtain rfl := Option.some.inj ((record?_named hm).symm.trans hm')
    exact isSealed
  ends := by
    rintro _ u ⟨⟩ hu
    cases hm.symm.trans hu

theorem union (hu : r.find? key = some (.union u)) (hends : ∀ a ∈ u.alternatives, ¬ r.Mentions a key) :
    r.Sound (.named key) where
  found := by
    rintro _ ⟨⟩
    exact ⟨_, hu⟩
  record := nofun
  isSealed m hm := by
    obtain ⟨_, ⟨⟩, hm⟩ := record?_eq_some_iff.mp hm
    cases hu.symm.trans hm
  ends := by
    rintro _ u' ⟨⟩ hu'
    cases hu.symm.trans hu'
    exact hends

end Sound

namespace AllSound

theorem of_part (h : r.AllSound d) (hp : r.Part d e) : r.AllSound e := fun f hf => h f (.head hp hf)

theorem of_closed {S : Descriptor → Prop} (hsound : ∀ d, S d → r.Sound d)
    (hpart : ∀ d e, S d → r.Part d e → S e) (hd : S d) : r.AllSound d := by
  intro e he
  refine hsound e ?_
  induction he with
  | refl => exact hd
  | tail _ hp ih => exact hpart _ _ ih hp

theorem of_mentions (h : r.AllSound d) (hm : r.Mentions d key) : r.AllSound (.named key) := by
  have hlayers : ∀ {d : Descriptor} {key : String}, r.AllSound d → d.key? = some key → r.AllSound (.named key) := by
    intro d key h hk
    induction d with
    | basic b => cases hk
    | maybeNull inner ih => exact ih (h.of_part (.maybeNull inner)) hk
    | array item ih => exact ih (h.of_part (.array item)) hk
    | map item ih => exact ih (h.of_part (.map item)) hk
    | named k =>
      obtain rfl : k = key := Option.some.inj hk
      exact h
  induction hm with
  | here hk => exact hlayers h hk
  | alternative hk hu ha _ ih => exact ih ((hlayers h hk).of_part (.alternative hu ha))

theorem exists_typeName (h : r.AllSound (.named key)) : ∃ name, r.typeName? (.named key) = some name :=
  Mentions.exists_typeName fun k u hm hu => ((h.of_mentions hm) _ .refl).ends k u rfl hu

theorem nameEnds (h : r.AllSound d) : r.nameEnds d = true := by
  induction d with
  | basic b => exact nameEnds_basic b
  | maybeNull inner ih => exact ih (h.of_part (.maybeNull inner))
  | array item ih => exact ih (h.of_part (.array item))
  | map item ih => exact ih (h.of_part (.map item))
  | named key =>
    obtain ⟨name, hname⟩ := h.exists_typeName
    exact nameEnds_of_typeName? hname

/-- What is sound with all its parts runs into no fault by itself. -/
theorem spares (fault : Fault) : r.Spares fault r.AllSound where
  part h hp := h.of_part hp
  record h hnone := by
    obtain ⟨m, hm⟩ := (h _ .refl).record _ rfl
    simp [hnone] at hm
  found h hnone := by
    obtain ⟨definition, hfind⟩ := (h _ .refl).found _ rfl
    simp [hnone] at hfind
  fit h hm hne hf := hne (fault?_of_isSealed ((h _ .refl).isSealed _ (record?_named hm)) hf)
  ends h _ _ := h.exists_typeName

theorem nests (h : r.AllSound d) : r.Nests r.entries.length d := (spares .endless).nests rfl h

/-- A model has no fault other than that no class can have its name. -/
theorem fault? (h : r.AllSound d) {m : Model} (hm : r.record? d = some m)
    (hname : m.name.contains '\x00' = false) : m.fault? = none := by
  simp [Model.fault?, (h d .refl).isSealed m hm, hname]

/-- If it is no model of whose name no class can be made, a sound descriptor accepts or rejects. -/
theorem decides_check (h : r.AllSound d) (hf : ∀ m, r.record? d = some m → m.fault? = none) (v : Value) :
    Outcome.Decides (r.Accepts d v) (r.check d v) := by
  refine Outcome.decides_of_avoids fun fault => ?_
  have hfit : r.Fit fault d := fun m hm => by simp [hf m hm]
  exact (spares fault).avoids_validate h hfit (fun _ => h.nests) v

end AllSound

/-- Among models that are fit for use an instance is found exactly if it is one of theirs. -/
theorem isInstanceOf_of_fit (hds : ∀ d ∈ ds, ∀ m, r.record? d = some m → m.fault? = none) (v : Value) :
    ∃ found, r.isInstanceOf v ds = .ok found ∧ (found = true ↔ r.Belongs ds v) := by
  induction ds with
  | nil => exact ⟨false, rfl, by simp [Belongs]⟩
  | cons d rest ih =>
    obtain ⟨found, hfound, hiff⟩ := ih fun e he => hds e (List.mem_cons_of_mem _ he)
    have htail (hne : ∀ key m serial name attributes held, d = .named key → r.find? key = some (.model m) →
        v ≠ .instance serial key name attributes held) : r.Belongs rest v ↔ r.Belongs (d :: rest) v := by
      constructor
      · rintro ⟨key, m, serial, name, attributes, held, hmem, hm, hv⟩
        exact ⟨key, m, serial, name, attributes, held, List.mem_cons_of_mem _ hmem, hm, hv⟩
      · rintro ⟨key, m, serial, name, attributes, held, hmem, hm, hv⟩
        have hrest : .named key ∈ rest :=
          (List.mem_cons.mp hmem).resolve_left fun heq => hne key m serial name attributes held heq.symm hm hv
        exact ⟨key, m, serial, name, attributes, held, hrest, hm, hv⟩
    unfold isInstanceOf
    split
    · next key m hrecord =>
      have hm : r.find? key = some (.model m) := by
        obtain ⟨k, hk, hfind⟩ := record?_eq_some_iff.mp hrecord
        cases hk
        exact hfind
      simp only [hds _ List.mem_cons_self m hrecord]
      split
      · next serial model name attributes held =>
        split
        · next heq =>
          subst heq
          have hmember : r.Belongs (.named model :: rest) (.instance serial model name attributes held) :=
            ⟨_, m, serial, name, attributes, held, List.mem_cons_self, hm, rfl⟩
          exact ⟨true, rfl, fun _ => hmember, fun _ => rfl⟩
        · next hne =>
          refine ⟨found, hfound, hiff.trans (htail ?_)⟩
          rintro k _ _ _ _ _ hk - hv
          cases hk
          cases hv
          exact hne rfl
      · next hne =>
        exact ⟨found, hfound, hiff.trans (htail fun _ _ _ _ _ _ _ _ hv => hne _ _ _ _ _ hv)⟩
    · next hnone =>
      refine ⟨found, hfound, hiff.trans (htail ?_)⟩
      rintro k m _ _ _ _ rfl hm -
      exact hnone k m rfl (record?_named hm)

/-- The alternatives of a union that are models are fit for use. -/
def FitUnion (r : Registry) (u : Union) : Prop := ∀ a ∈ u.alternatives, ∀ m, r.record? a = some m → m.fault? = none

theorem check_of_belongs (hu : r.find? key = some (.union u)) (hfit : r.FitUnion u)
    (hv : r.Belongs u.alternatives v) : r.check (.named key) v = .ok v := by
  obtain ⟨found, hfound, hiff⟩ := isInstanceOf_of_fit hfit v
  rw [hiff.mpr hv] at hfound
  exact check_union_instance hu hfound

theorem create_of_belongs (hends : r.nameEnds (.named key) = true) (hu : r.find? key = some (.union u))
    (hfit : r.FitUnion u) (hv : r.Belongs u.alternatives v) : r.create (.named key) v = .ok v :=
  create_of_check hends (check_of_belongs hu hfit hv)

theorem isValid_of_decides (hends : r.nameEnds d = true) (h : Outcome.Decides (r.Accepts d v) (r.check d v)) :
    r.isValid d v = .ok false ↔ ¬ r.Accepts d v := by
  obtain ⟨accepted, hvalid, hiff⟩ := exists_isValid hends h
  rw [hvalid, ← hiff]
  simp

section Sound

variable (hd : r.AllSound (.named key)) (hu : r.find? key = some (.union u)) (hfit : r.FitUnion u)

include hd hu hfit

theorem decides_alternative (ha : a ∈ u.alternatives) (v : Value) :
    Outcome.Decides (r.Accepts a v) (r.check a v) :=
  (hd.of_part (.alternative hu ha)).decides_check (hfit a ha) v

theorem check_of_not_belongs (hv : ¬ r.Belongs u.alternatives v) : ∃ name, r.check (.named key) v =
    Outcome.first (Outcome.reject (.noAlternative name)) (u.alternatives.map fun a => r.check a v) := by
  obtain ⟨name, hname⟩ := hd.exists_typeName
  obtain ⟨found, hfound, hiff⟩ := isInstanceOf_of_fit hfit v
  obtain rfl : found = false := Bool.eq_false_iff.mpr fun htrue => hv (hiff.mp htrue)
  exact ⟨name, check_union hu hname hfound⟩

/-- A union accepts the instances of its alternatives, and what an alternative accepts. -/
theorem exists_isValid_union (v : Value) : ∃ accepted, r.isValid (.named key) v = .ok accepted ∧
    (accepted = true ↔ r.Belongs u.alternatives v ∨ ∃ a ∈ u.alternatives, r.isValid a v = .ok true) := by
  have haccepts : (∃ a ∈ u.alternatives, r.isValid a v = .ok true) ↔ ∃ a ∈ u.alternatives, r.Accepts a v :=
    exists_congr fun a => and_congr_right fun ha =>
      isValid_iff_accepts (hd.of_part (.alternative hu ha)).nameEnds
  rw [haccepts]
  by_cases hv : r.Belongs u.alternatives v
  · refine ⟨true, (isValid_iff_accepts hd.nameEnds).mpr ⟨v, check_of_belongs hu hfit hv⟩, ?_⟩
    simp [hv]
  · obtain ⟨name, hcheck⟩ := check_of_not_belongs hd hu hfit hv
    have hfirst := Outcome.decides_first (Outcome.decides_reject id (.noAlternative name)) fun a ha =>
      decides_alternative hd hu hfit ha v
    rw [← hcheck] at hfirst
    obtain ⟨accepted, hvalid, hiff⟩ := exists_isValid hd.nameEnds hfirst
    exact ⟨accepted, hvalid, hiff.trans (or_iff_right hv).symm⟩

/-- Of any other value a union makes what the first alternative that accepts it makes. -/
theorem create_union_iff (hv : ¬ r.Belongs u.alternatives v) :
    r.create (.named key) v = .ok w ↔ r.FirstMakes u.alternatives v w := by
  obtain ⟨name, hcheck⟩ := check_of_not_belongs hd hu hfit hv
  have hlast : Outcome.reject (.noAlternative name) ≠ .ok w := by simp [Outcome.reject]
  have hends : ∀ a ∈ u.alternatives, r.nameEnds a = true := fun a ha =>
    (hd.of_part (.alternative hu ha)).nameEnds
  rw [create_union_eq_ok_iff hu hd.nameEnds, hcheck, Outcome.first_eq_ok_iff hlast]
  constructor
  · rintro ⟨before, after, hsplit, hbefore⟩
    obtain ⟨firsts, rest, hall, rfl, hrest⟩ := List.map_eq_append_iff.mp hsplit
    obtain ⟨a, lasts, rfl, ha, -⟩ := List.map_eq_cons_iff.mp hrest
    have haends := hends a (by simp [hall])
    refine ⟨firsts, a, lasts, hall, (isValid_iff_accepts haends).mpr ⟨w, ha⟩, create_of_check haends ha, ?_⟩
    intro b hb
    obtain ⟨issues, hissues⟩ := hbefore _ (List.mem_map_of_mem hb)
    exact isValid_rejected (hends b (by simp [hall, hb])) hissues
  · rintro ⟨before, a, after, hall, hvalid, hcreate, hbefore⟩
    obtain ⟨haends, w', hw'⟩ := isValid_eq_true_iff.mp hvalid
    obtain rfl : w' = w := by simpa [create_of_check haends hw'] using hcreate
    refine ⟨before.map fun b => r.check b v, after.map fun b => r.check b v, by simp [hall, hw'], ?_⟩
    intro part hpart
    obtain ⟨b, hb, rfl⟩ := List.mem_map.mp hpart
    have hmem : b ∈ u.alternatives := by simp [hall, hb]
    have hdecides := decides_alternative hd hu hfit hmem v
    have hrejects := (isValid_of_decides (hends b hmem) hdecides).mp (hbefore b hb)
    refine Outcome.exists_rejected (fun fault heq => ?_) fun y hy => hrejects ⟨y, hy⟩
    rw [heq] at hdecides
    cases hdecides

/-- Where one alternative alone accepts, the union makes what this alternative makes. -/
theorem create_union_of_sole (hv : ¬ r.Belongs u.alternatives v) (ha : a ∈ u.alternatives)
    (haccepts : r.isValid a v = .ok true) (sole : ∀ b ∈ u.alternatives, r.isValid b v = .ok true → b = a) :
    r.create (.named key) v = r.create a v := by
  obtain ⟨accepted, hvalid, hiff⟩ := exists_isValid_union hd hu hfit v
  rw [hiff.mpr (.inr ⟨a, ha, haccepts⟩)] at hvalid
  obtain ⟨-, y, hy⟩ := isValid_eq_true_iff.mp hvalid
  have hunion := create_of_check hd.nameEnds hy
  obtain ⟨before, b, after, hall, hvalid, hcreate, -⟩ := (create_union_iff hd hu hfit hv).mp hunion
  obtain rfl := sole b (by simp [hall]) hvalid
  rw [hunion, hcreate]

end Sound

/-- The order of the alternatives neither decides what is accepted nor changes an instance of one of them.
Otherwise the first alternative that accepts counts, so the order is of no account where one alone does. -/
theorem create_permuted (hu : r.find? key = some (.union u)) (hother : r.find? other = some (.union u'))
    (hperm : u.alternatives.Perm u'.alternatives) (hd : r.AllSound (.named key)) (he : r.AllSound (.named other))
    (names : ∀ a ∈ u.alternatives, ∀ m, r.record? a = some m → m.name.contains '\x00' = false) (v : Value) :
    (∃ accepted, r.isValid (.named key) v = .ok accepted ∧ r.isValid (.named other) v = .ok accepted ∧
      (accepted = true ↔ r.Belongs u.alternatives v ∨ ∃ a ∈ u.alternatives, r.isValid a v = .ok true)) ∧
    (r.Belongs u.alternatives v → r.create (.named key) v = .ok v ∧ r.create (.named other) v = .ok v) ∧
    (¬ r.Belongs u.alternatives v →
      (∀ w, (r.create (.named key) v = .ok w ↔ r.FirstMakes u.alternatives v w) ∧
        (r.create (.named other) v = .ok w ↔ r.FirstMakes u'.alternatives v w)) ∧
      ∀ a ∈ u.alternatives, r.isValid a v = .ok true →
        (∀ b ∈ u.alternatives, r.isValid b v = .ok true → b = a) →
        r.create (.named key) v = r.create a v ∧ r.create (.named other) v = r.create a v) := by
  have hmem : ∀ a, a ∈ u'.alternatives ↔ a ∈ u.alternatives := fun a => hperm.mem_iff.symm
  have hfit : r.FitUnion u := fun a ha m hm => (hd.of_part (.alternative hu ha)).fault? hm (names a ha m hm)
  have hfit' : r.FitUnion u' := fun a ha => hfit a ((hmem a).mp ha)
  have hbelongs : r.Belongs u'.alternatives v ↔ r.Belongs u.alternatives v := by simp only [Belongs, hmem]
  refine ⟨?_, fun hv => ⟨create_of_belongs hd.nameEnds hu hfit hv,
    create_of_belongs he.nameEnds hother hfit' (hbelongs.mpr hv)⟩, ?_⟩
  · obtain ⟨accepted, hvalid, hiff⟩ := exists_isValid_union hd hu hfit v
    obtain ⟨accepted', hvalid', hiff'⟩ := exists_isValid_union he hother hfit' v
    simp only [hmem, hbelongs] at hiff'
    obtain rfl : accepted' = accepted := Bool.eq_iff_iff.mpr (hiff'.trans hiff.symm)
    exact ⟨accepted', hvalid, hvalid', hiff⟩
  · intro hv
    have hv' : ¬ r.Belongs u'.alternatives v := fun h => hv (hbelongs.mp h)
    refine ⟨fun w => ⟨create_union_iff hd hu hfit hv, create_union_iff he hother hfit' hv'⟩, ?_⟩
    intro a ha haccepts sole
    exact ⟨create_union_of_sole hd hu hfit hv ha haccepts sole,
      create_union_of_sole he hother hfit' hv' ((hmem a).mpr ha) haccepts fun b hb => sole b ((hmem b).mp hb)⟩

/-- A list is taken by the only alternative that is of lists, whether it comes first or last. -/
theorem create_permuted_list :
    let model : Model := ⟨"A", [], true⟩
    let u : Union := { alternatives := [.named "A", .array .string], isSealed := true }
    let u' : Union := { alternatives := [.array .string, .named "A"], isSealed := true }
    let r : Registry := ⟨[("A", .model model), ("U", .union u), ("V", .union u')]⟩
    u.alternatives.Perm u'.alternatives ∧ r.AllSound (.named "U") ∧ r.AllSound (.named "V") ∧
      (∀ a ∈ u.alternatives, ∀ m, r.record? a = some m → m.name.contains '\x00' = false) ∧
      r.create (.named "U") (.list []) = .ok (.list []) ∧ r.create (.named "V") (.list []) = .ok (.list []) := by
  intro model u u' r
  have hA : r.find? "A" = some (.model model) := rfl
  have hU : r.find? "U" = some (.union u) := rfl
  have hV : r.find? "V" = some (.union u') := rfl
  have hperm : u.alternatives.Perm u'.alternatives := .swap _ _ _
  have hfault : model.fault? = none := by simp [model, Model.fault?]
  have hmentions : ∀ a ∈ u.alternatives, ∀ k, r.Mentions a k → k = "A" := by
    have harray : ∀ k, ¬ r.Mentions (.array .string) k := by rintro k (h | h) <;> cases h
    have hnamed : ∀ k, r.Mentions (.named "A") k → k = "A" := by
      rintro k (h | ⟨h, hu, -, -⟩)
      · exact (Option.some.inj h).symm
      · cases h
        cases hA.symm.trans hu
    rintro a ha k hk
    rcases List.mem_pair.mp ha with rfl | rfl
    · exact hnamed k hk
    · exact absurd hk (harray k)
  let S (d : Descriptor) : Prop :=
    d = .named "U" ∨ d = .named "V" ∨ d = .named "A" ∨ d = .array .string ∨ d = .string
  have hsound : ∀ d, S d → r.Sound d := by
    rintro d (rfl | rfl | rfl | rfl | rfl)
    · exact .union hU fun a ha hk => absurd (hmentions a ha _ hk) (by decide)
    · exact .union hV fun a ha hk => absurd (hmentions a (hperm.mem_iff.mpr ha) _ hk) (by decide)
    · exact .model hA rfl
    · exact .layer (by simp) (by simp)
    · exact .layer (by simp) (by simp)
  have hclosed : ∀ d e, S d → r.Part d e → S e := by
    have halternatives : ∀ a ∈ u.alternatives, S a := by simp [u, S]
    rintro d e (rfl | rfl | rfl | rfl | rfl) hpart
    · cases hpart with
      | property h _ => cases hU.symm.trans h
      | alternative h ha =>
        cases hU.symm.trans h
        exact halternatives e ha
    · cases hpart with
      | property h _ => cases hV.symm.trans h
      | alternative h ha =>
        cases hV.symm.trans h
        exact halternatives e (hperm.mem_iff.mpr ha)
    · cases hpart with
      | property h hp =>
        cases hA.symm.trans h
        cases hp
      | alternative h _ => cases hA.symm.trans h
    · cases hpart
      simp [S]
    · cases hpart
  have hd : r.AllSound (.named "U") := .of_closed hsound hclosed (by simp [S])
  have he : r.AllSound (.named "V") := .of_closed hsound hclosed (by simp [S])
  have names : ∀ a ∈ u.alternatives, ∀ m, r.record? a = some m → m.name.contains '\x00' = false := by
    rintro a ha m hm
    rcases List.mem_pair.mp ha with rfl | rfl
    · obtain rfl := Option.some.inj ((record?_named hA).symm.trans hm)
      simp [model]
    · cases hm
  have hstranger : ¬ r.Belongs u.alternatives (.list []) := by
    rintro ⟨_, _, _, _, _, _, -, -, hv⟩
    cases hv
  have hlist : r.check (.array .string) (.list []) = .ok (.list []) :=
    validate_list_eq_ok_iff.mpr ⟨[], .nil, rfl⟩
  have hrecord : r.isValid (.named "A") (.list []) = .ok false :=
    isValid_rejected rfl (validate_not_model hA hfault (by simp) (by simp))
  have hsole : ∀ b ∈ u.alternatives, r.isValid b (.list []) = .ok true → b = .array .string := by
    rintro b hb hvalid
    rcases List.mem_pair.mp hb with rfl | rfl
    · cases hrecord.symm.trans hvalid
    · rfl
  obtain ⟨-, -, hrest⟩ := create_permuted hU hV hperm hd he names (.list [])
  obtain ⟨hfirst, hlast⟩ := (hrest hstranger).2 (.array .string) (by simp [u])
    ((isValid_iff_accepts rfl).mpr ⟨_, hlist⟩) hsole
  rw [create_of_check rfl hlist] at hfirst hlast
  exact ⟨hperm, hd, he, names, hfirst, hlast⟩

/-- Two alternatives that spoil a union: a model of whose name no class can be made hides the instances of
the models behind it, and with a union that is an alternative of its own lists there is no finite name, so
that nothing is tried at all. -/
theorem isValid_permuted_unusable :
    let w : Union := { alternatives := [.array (.named "W"), .string], isSealed := true }
    let r (alternatives : List Descriptor) : Registry :=
      ⟨[("A", .model ⟨"A", [], true⟩), ("B", .model ⟨"B\x00", [], true⟩), ("W", .union w),
        ("U", .union { alternatives := alternatives, isSealed := true })]⟩
    let a : Value := .record none "A" "A" []
    (∀ alternatives, (r alternatives).AllSealed) ∧
      ((r [.named "A", .named "B"]).isValid (.named "U") a = .ok true ∧
        (r [.named "B", .named "A"]).isValid (.named "U") a = .ok false) ∧
      ∀ alternatives v, .named "W" ∈ alternatives →
        (r alternatives).isValid .number (.scalar (.int 5)) = .ok true ∧
        (r alternatives).isValid (.named "U") v = .error .endless := by
  intro w r a
  have hA (alternatives : List Descriptor) : (r alternatives).record? (.named "A") = some ⟨"A", [], true⟩ := rfl
  have hB (alternatives : List Descriptor) : (r alternatives).record? (.named "B") = some ⟨"B\x00", [], true⟩ := rfl
  have hU (alternatives : List Descriptor) : (r alternatives).find? "U" =
      some (.union { alternatives := alternatives, isSealed := true }) := rfl
  have hfault : (⟨"A", [], true⟩ : Model).fault? = none := by simp [Model.fault?]
  have hname : (⟨"B\x00", [], true⟩ : Model).fault? = some .nullInName := by simp [Model.fault?]
  have hsealed (alternatives : List Descriptor) : (r alternatives).AllSealed := by
    intro key model hfind
    have hmem := Entries.mem_of_lookup hfind
    simp only [r, List.mem_cons, Prod.mk.injEq, List.not_mem_nil, or_false] at hmem
    rcases hmem with ⟨-, h⟩ | ⟨-, h⟩ | ⟨-, h⟩ | ⟨-, h⟩ <;> cases h <;> rfl
  refine ⟨hsealed, ⟨?_, ?_⟩, fun alternatives v hmem => ⟨?_, ?_⟩⟩
  · have hfirst : (r [.named "A", .named "B"]).isInstanceOf a [.named "A", .named "B"] = .ok true := by
      simp [isInstanceOf, hA, hfault, a, Value.record]
    exact (isValid_iff_accepts rfl).mpr ⟨a, check_union_instance (hU _) hfirst⟩
  · have hfirst : (r [.named "B", .named "A"]).isInstanceOf a [.named "B", .named "A"] =
        Outcome.reject .nullInName := by
      simp [isInstanceOf, hB, hname]
    exact isValid_rejected rfl (check_union_error (hU _) hfirst)
  · exact (isValid_iff_accepts rfl).mpr ⟨_, validate_basic _ _⟩
  · have hW : (r alternatives).nameEnds (.named "W") = false := rfl
    have hends : (r alternatives).nameEnds (.named "U") = false :=
      Bool.eq_false_iff.mpr fun h => by simp [nameEnds_alternative h (hU _) hmem] at hW
    rw [isValid, convert, onItsOwn_endless hends]
    rfl

end Registry

end CheckedModels
