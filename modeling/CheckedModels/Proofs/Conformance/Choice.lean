import CheckedModels.Proofs.Conformance.Faithful
import CheckedModels.Proofs.Conversion.Choice

/-! Compiled unions take the snapshots of their values as they took the data. -/
namespace CheckedModels.Declarations

variable {ds : Declarations} {config : Config} {r : Registry}

namespace Yields

theorem nodup_keys (h : ds.Yields config r) {key : String} {m : Model}
    (hm : r.find? key = some (.model m)) : m.properties.keys.Nodup := by
  have hkey := Registry.mem_keys_iff.mpr ⟨_, hm⟩
  obtain ⟨d, hd, rfl⟩ := h.declared key hkey
  cases d with
  | object | input | interface =>
    obtain rfl : m = _ := by simpa using hm.symm.trans (h.find?_model hd rfl hkey)
    exact Scope.nodup_keys_compose _ _ _
  | union u => cases hm.symm.trans (h.find?_union hd hkey)
  | enum | scalar => cases hm.symm.trans (h.found _ hd hkey)

theorem orderly (h : ds.Yields config r) : r.Orderly r.Refers where
  part hd hp := hd.of_part h.plain hp
  found hd := by
    cases hd with
    | named hkey => exact Registry.mem_keys_iff.mp hkey
  model _ hm := by
    refine ⟨?_, h.nodup_keys hm⟩
    cases h.plain hm with
    | model _ finished => exact finished
  union _ hu := (h.plain hu).record?_alternative
  noMap hd := by cases hd

end Yields

/-- A compiled union loads the snapshots of what it makes of plain data. If no property is opaque in one of
the records that can be reached from it and may be null in another, the same instance is made again, of the
same alternative. -/
theorem compile_choice (distinct : ds.names.Nodup) (config : Config) : ∃ c, ds.compile config = .ok c ∧
    ∀ key u, c.registry.find? key = some (.union u) → ∀ (j : Json) (w : Value),
      c.registry.create (.named key) (.ofJson j) = .ok w →
      (∃ name m properties, .named name ∈ u.alternatives ∧ c.registry.find? name = some (.model m) ∧
        w = .record none name m.name properties) ∧
      (∃ z, c.registry.create (.named key) w.snapshot = .ok z) ∧
      (c.registry.Steady (Relation.ReflTransGen c.registry.Part (.named key)) →
        c.registry.create (.named key) w.snapshot = .ok w) := by
  obtain ⟨c, hcompile, hyields⟩ := yields_compile distinct config
  refine ⟨c, hcompile, fun key u hu j w hcreate => ?_⟩
  have hrefers : c.registry.Refers (.named key) := .named (Registry.mem_keys_iff.mpr ⟨_, hu⟩)
  have horderly := hyields.orderly.reachable hrefers
  have hplain := Value.isPlain_ofJson j
  have hcheck := (horderly.create_union_eq_ok_iff .refl hu).mp hcreate
  obtain ⟨z, hz, hsame⟩ := horderly.reload .refl hplain hcheck
  have hagain : c.registry.create (.named key) w.snapshot = .ok z :=
    (horderly.create_union_eq_ok_iff .refl hu).mpr hz
  exact ⟨horderly.exists_instance .refl hu hplain hcheck, ⟨z, hagain⟩, fun hsteady => hsame hsteady ▸ hagain⟩

/-- Nothing is made of an empty dictionary where a property may not be null. -/
theorem not_accepts_empty {key : String} {m : Model} (hm : r.find? key = some (.model m))
    {p : String × Descriptor} (hp : p ∈ m.properties) (hd : p.2.isMaybeNull = false) :
    ¬ r.Accepts (.named key) (.dict []) := by
  rintro ⟨y, hy⟩
  have hf := Registry.fault?_of_check hm hy
  obtain ⟨-, parts, hparts, -⟩ := (Registry.validate_dict_eq_ok_iff hm hf).mp hy
  obtain ⟨z, -, hz⟩ := Entries.exists_rel_of_mem hparts.flip hp
  obtain ⟨habsent, -⟩ := Registry.part_eq_ok_iff.mp hz
  obtain ⟨⟨inner, hinner⟩, -⟩ := habsent rfl
  rw [hinner] at hd
  cases hd

theorem fit_pair {key other : String} {m n : Model} (hm : r.find? key = some (.model m))
    (hn : r.find? other = some (.model n)) (hfm : m.fault? = none) (hfn : n.fault? = none) :
    ∀ d ∈ [Descriptor.named key, .named other], ∀ k, r.record? d = some k → k.fault? = none := by
  intro d hd k hk
  rcases List.mem_cons.mp hd with rfl | hd
  · exact Option.some.inj ((Registry.record?_named hm).symm.trans hk) ▸ hfm
  · obtain rfl := List.mem_singleton.mp hd
    exact Option.some.inj ((Registry.record?_named hn).symm.trans hk) ▸ hfn

/-- The first alternative does not accept what leaves out its property, nor the null that the second one
puts in its place. -/
theorem compile_choice_required :
    let ds : Declarations := {
      objects := [⟨"A", [⟨"x", .nonNull (.named "Int"), .unknown⟩], []⟩,
        ⟨"B", [⟨"x", .named "Int", .unknown⟩], []⟩]
      unions := [⟨"U", ["A", "B"]⟩] }
    let w : Value := .record none "B" "B" [("x", .null)]
    ds.names.Nodup ∧ ∃ c u, ds.compile {} = .ok c ∧ c.registry.find? "U" = some (.union u) ∧
      c.registry.create (.named "U") (.ofJson (.obj [])) = .ok w ∧
      c.registry.Steady (Relation.ReflTransGen c.registry.Part (.named "U")) ∧
      c.registry.create (.named "U") w.snapshot = .ok w := by
  intro ds w
  let a : Model := ⟨"A", [("x", .number)], true⟩
  let b : Model := ⟨"B", [("x", .maybeNull .number)], true⟩
  let u : Union := ⟨some "U", [.named "A", .named "B"], true⟩
  let r : Registry := ⟨[("A", .model a), ("B", .model b), ("U", .union u)]⟩
  have hdistinct : ds.names.Nodup := by decide
  have hcompile : ds.compile {} = .ok ⟨r, [.compiled 3]⟩ := by decide +kernel
  have hA : r.find? "A" = some (.model a) := rfl
  have hB : r.find? "B" = some (.model b) := rfl
  have hU : r.find? "U" = some (.union u) := rfl
  have hf : b.fault? = none := by simp [b, Model.fault?]
  have hfit := fit_pair hA hB (by simp [a, Model.fault?]) hf
  obtain ⟨c, hc, hyields⟩ := yields_compile hdistinct {}
  obtain rfl := Except.ok.inj (hc.symm.trans hcompile)
  have hrefers : r.Refers (.named "U") := .named (by decide)
  have hmade : r.check (.named "B") (.dict []) = .ok w :=
    (Registry.validate_dict_eq_ok_iff hB hf).mpr ⟨by simp, [.null], .cons rfl .nil, rfl⟩
  have hcheck : r.check (.named "U") (.dict []) = .ok w := by
    have hrejects := not_accepts_empty hA (List.mem_singleton.mpr rfl) rfl
    apply (hyields.orderly.check_union_eq_ok_iff hrefers hU (.dict (by simp))).mpr
    exact ⟨hfit, [.named "A"], .named "B", [], rfl, hmade, by simpa using hrejects⟩
  have hsteady : r.Steady (Relation.ReflTransGen r.Part (.named "U")) := by
    intro key other m n _ _ hm _ p hp q _ _ hfrozen
    have hmem := Entries.mem_of_lookup hm
    simp only [r, List.mem_cons, Prod.mk.injEq, List.not_mem_nil, or_false] at hmem
    rcases hmem with ⟨-, h⟩ | ⟨-, h⟩ | ⟨-, h⟩ <;> cases h <;> cases List.mem_singleton.mp hp <;> cases hfrozen
  have hcreate := (hyields.orderly.create_union_eq_ok_iff hrefers hU).mpr hcheck
  obtain ⟨c, hc, hchoice⟩ := compile_choice hdistinct {}
  obtain rfl := Except.ok.inj (hc.symm.trans hcompile)
  obtain ⟨-, -, hagain⟩ := hchoice "U" u hU (.obj []) w hcreate
  exact ⟨hdistinct, _, u, hcompile, hU, hcreate, hsteady, hagain hsteady⟩

/-- A property of a custom scalar has to be there, but may be null: the null that the second alternative
puts in its place makes the first one accept. -/
theorem compile_choice_scalar :
    let ds : Declarations := {
      objects := [⟨"A", [⟨"x", .nonNull (.named "Date"), .unknown⟩], []⟩,
        ⟨"B", [⟨"x", .named "Int", .unknown⟩], []⟩]
      unions := [⟨"U", ["A", "B"]⟩]
      scalars := [⟨"Date"⟩] }
    let first : Value := .record none "A" "A" [("x", .null)]
    let second : Value := .record none "B" "B" [("x", .null)]
    ds.names.Nodup ∧ ∃ c, ds.compile {} = .ok c ∧
      c.registry.create (.named "U") (.ofJson (.obj [])) = .ok second ∧
      c.registry.create (.named "U") second.snapshot = .ok first := by
  intro ds first second
  let a : Model := ⟨"A", [("x", .named "Date")], true⟩
  let b : Model := ⟨"B", [("x", .maybeNull .number)], true⟩
  let u : Union := ⟨some "U", [.named "A", .named "B"], true⟩
  let r : Registry := ⟨[("A", .model a), ("Date", .basic .frozen), ("B", .model b), ("U", .union u)]⟩
  have hdistinct : ds.names.Nodup := by decide
  have hcompile : ds.compile {} = .ok ⟨r, [.compiled 4]⟩ := by decide +kernel
  have hA : r.find? "A" = some (.model a) := rfl
  have hB : r.find? "B" = some (.model b) := rfl
  have hU : r.find? "U" = some (.union u) := rfl
  have hfa : a.fault? = none := by simp [a, Model.fault?]
  have hfb : b.fault? = none := by simp [b, Model.fault?]
  have hfit := fit_pair hA hB hfa hfb
  obtain ⟨c, hc, hyields⟩ := yields_compile hdistinct {}
  obtain rfl := Except.ok.inj (hc.symm.trans hcompile)
  have hrefers : r.Refers (.named "U") := .named (by decide)
  have hunion {v w : Value} (hv : v.IsPlain) :=
    @Registry.Orderly.check_union_eq_ok_iff _ _ _ _ _ w hyields.orderly hrefers hU hv
  have hsecond : r.check (.named "B") (.dict []) = .ok second :=
    (Registry.validate_dict_eq_ok_iff hB hfb).mpr ⟨by simp, [.null], .cons rfl .nil, rfl⟩
  have hrejects := not_accepts_empty hA (List.mem_singleton.mpr rfl) rfl
  have hsnapshot : second.snapshot = .dict [(.str (.whole "x"), .null)] := Value.snapshot_record (by decide)
  have hfirst : r.check (.named "A") second.snapshot = .ok first := by
    have hdate : r.find? "Date" = some (.basic .frozen) := rfl
    have hfrozen : r.check (.named "Date") .null = .ok .null := Registry.validate_named_basic hdate .null
    have hpart : r.part [(.str (.whole "x"), .null)] ("x", .named "Date") = .ok .null := by
      simp [Registry.part_eq_ok_iff, Value.under?, hfrozen]
    rw [hsnapshot]
    apply (Registry.validate_dict_eq_ok_iff hA hfa).mpr
    exact ⟨by simp [a, Entries.keys], [.null], .cons hpart .nil, rfl⟩
  refine ⟨hdistinct, _, hcompile, ?_, ?_⟩
  · apply (hyields.orderly.create_union_eq_ok_iff hrefers hU).mpr
    apply (hunion (Value.isPlain_ofJson (.obj []))).mpr
    refine ⟨hfit, [.named "A"], .named "B", [], rfl, hsecond, fun d hd => ?_⟩
    obtain rfl := List.mem_singleton.mp hd
    exact hrejects
  · apply (hyields.orderly.create_union_eq_ok_iff hrefers hU).mpr
    apply (hunion (hsnapshot ▸ .dict (by simpa using .scalar _))).mpr
    exact ⟨hfit, [], .named "A", [.named "B"], rfl, hfirst, by simp⟩

end CheckedModels.Declarations
