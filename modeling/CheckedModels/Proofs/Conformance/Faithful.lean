import CheckedModels.Proofs.Conformance.Compiled
import CheckedModels.Proofs.Conversion.Twins

/-! The summary of a compiled schema tells which plain data its types accept. -/
namespace CheckedModels

/-- Words that stand for something else in a printed name. -/
def Sdl.takenNames : List String := ["string", "number", "boolean", "identifier", "frozen", "null"]

theorem Sdl.IsName.isFree {name : String} (h : IsName name) (new : name ∉ takenNames) : IsFree name where
  word := h.isWord
  notNull := by
    rintro rfl
    exact new (by decide)
  notBasic b := by
    rintro rfl
    cases b <;> exact new (by decide)

namespace Declarations

/-- Every declared name is a name of the schema language and has no other meaning. -/
def Named (ds : Declarations) : Prop := ∀ name ∈ ds.names, Sdl.IsName name ∧ name ∉ Sdl.takenNames

namespace Yields

variable {ds : Declarations} {config : Config} {r : Registry}

theorem refers_of_mem_compose (h : ds.Yields config r) {d : Declaration} (hd : d ∈ ds.all)
    (hm : d.isModel = true) (hr : d.name ∈ r.keys) {p : String × Descriptor}
    (hp : p ∈ Scope.compose { declarations := ds.resolveKinds } (config.choice d.name) (ds.resolve d)) :
    r.Refers p.2 := by
  obtain ⟨f, -, hdescribes⟩ := Scope.exists_field_of_mem_compose hp
  apply Registry.refers_of_core
  rcases hdescribes.core with ⟨b, hb, -⟩ | hname
  · exact .inl ⟨b, hb⟩
  · exact .inr ⟨_, h.refers d hd hm hr p hp _ hname, hname⟩

theorem plain_union (h : ds.Yields config r) {u : UnionDeclaration} (hu : .union u ∈ ds.all)
    (hr : u.name ∈ r.keys) : r.Plain u.name (.union ⟨some u.name, ds.objectMembers u, true⟩) := by
  refine .union rfl fun name hname => ?_
  obtain ⟨hm, ho⟩ := List.mem_filter.mp hname
  obtain ⟨d, hd⟩ := Option.isSome_iff_exists.mp ho
  obtain ⟨hmem, rfl, hkind⟩ := findKind?_mem hd
  have hmodel : d.isModel = true := by simp [Declaration.isModel, hkind]
  exact ⟨_, h.find?_model hmem hmodel (h.members u hu hr _ hm ho)⟩

/-- Definitions are finished when they are published. -/
theorem plain (h : ds.Yields config r) {key : String} {definition : Definition}
    (hfind : r.find? key = some definition) : r.Plain key definition := by
  have hkey := Registry.mem_keys_iff.mpr ⟨_, hfind⟩
  obtain ⟨d, hd, rfl⟩ := h.declared key hkey
  cases d with
  | object | input | interface =>
    obtain rfl := Option.some.inj (hfind.symm.trans (h.find?_model hd rfl hkey))
    exact .model rfl rfl fun p hp => h.refers_of_mem_compose hd rfl hkey hp
  | union u =>
    obtain rfl := Option.some.inj (hfind.symm.trans (h.find?_union hd hkey))
    exact h.plain_union hd hkey
  | enum e =>
    obtain rfl := Option.some.inj (hfind.symm.trans (h.found _ hd hkey))
    exact .enumeration rfl
  | scalar e =>
    obtain rfl := Option.some.inj (hfind.symm.trans (h.found _ hd hkey))
    exact .basic .frozen

/-- What is compiled from such names can be told from its printed names. -/
theorem legible (h : ds.Yields config r) (named : ds.Named) : r.Legible where
  free {key} hkey := by
    obtain ⟨d, hd, rfl⟩ := h.declared key hkey
    obtain ⟨hname, hnew⟩ := named d.name (mem_names hd)
    exact hname.isFree hnew
  plain := h.plain

end Yields

/-- Schemas that are written alike accept the same plain data under each name. -/
theorem isValid_eq_of_serialize {ds₁ ds₂ : Declarations} (distinct₁ : ds₁.names.Nodup)
    (distinct₂ : ds₂.names.Nodup) (named₁ : ds₁.Named) (named₂ : ds₂.Named) (config₁ config₂ : Config) :
    ∃ c₁ c₂, ds₁.compile config₁ = .ok c₁ ∧ ds₂.compile config₂ = .ok c₂ ∧
      (c₁.registry.serialize = c₂.registry.serialize → c₁.registry.keys = c₂.registry.keys ∧
        ∀ name ∈ c₁.registry.keys, ∀ j : Json, ∃ b,
          c₁.registry.isValid (.named name) (.ofJson j) = .ok b ∧
          c₂.registry.isValid (.named name) (.ofJson j) = .ok b) := by
  obtain ⟨c₁, hcompile₁, hyields₁⟩ := yields_compile distinct₁ config₁
  obtain ⟨c₂, hcompile₂, hyields₂⟩ := yields_compile distinct₂ config₂
  refine ⟨c₁, c₂, hcompile₁, hcompile₂, fun h => ?_⟩
  have hlegible₁ := hyields₁.legible named₁
  have hlegible₂ := hyields₂.legible named₂
  refine ⟨(Registry.summary_eq_of_serialize h).1, fun name hname j => ?_⟩
  exact Registry.exists_isValid_of_serialize hlegible₁ hlegible₂ h hname (.ofJson j)

/-- A field may have the one scalar or the other: both are opaque, and the same is written. -/
theorem isValid_eq_of_serialize_scalars :
    let schema (type : String) : Declarations :=
      { objects := [⟨"Log", [⟨"at", .named "Date", .unknown⟩, ⟨"by", .nonNull (.named "Host"), .unknown⟩,
          ⟨"data", .list (.named type), .unknown⟩], []⟩]
        scalars := [⟨"Date"⟩, ⟨"Host"⟩] }
    ∃ c₁ c₂, (schema "Date").compile {} = .ok c₁ ∧ (schema "Host").compile {} = .ok c₂ ∧ c₁ ≠ c₂ ∧
      c₁.registry.serialize = c₂.registry.serialize ∧
      ∀ name ∈ c₁.registry.keys, ∀ j : Json, ∃ b,
        c₁.registry.isValid (.named name) (.ofJson j) = .ok b ∧
        c₂.registry.isValid (.named name) (.ofJson j) = .ok b := by
  intro schema
  let compiled (type : String) : Registry := ⟨[("Log", .model ⟨"Log", [("at", .maybeNull (.named "Date")),
    ("by", .named "Host"), ("data", .maybeNull (.array (.maybeNull (.named type))))], true⟩),
    ("Date", .basic .frozen), ("Host", .basic .frozen)]⟩
  have hcompile₁ : (schema "Date").compile {} = .ok ⟨compiled "Date", [.compiled 3]⟩ := by decide +kernel
  have hcompile₂ : (schema "Host").compile {} = .ok ⟨compiled "Host", [.compiled 3]⟩ := by decide +kernel
  have hserialize : (compiled "Date").serialize = (compiled "Host").serialize := by decide +kernel
  have hnames : ∀ type, (schema type).names = ["Log", "Date", "Host"] := fun _ => rfl
  have hnamed : ∀ type, (schema type).Named := by
    intro type name hname
    rw [hnames] at hname
    simp only [List.mem_cons, List.not_mem_nil, or_false] at hname
    rcases hname with rfl | rfl | rfl <;> exact ⟨by decide, by decide⟩
  obtain ⟨c₁, c₂, h₁, h₂, hfaithful⟩ := isValid_eq_of_serialize (by decide) (by decide)
    (hnamed "Date") (hnamed "Host") {} {}
  obtain rfl := Except.ok.inj (h₁.symm.trans hcompile₁)
  obtain rfl := Except.ok.inj (h₂.symm.trans hcompile₂)
  exact ⟨_, _, h₁, h₂, by decide, hserialize, (hfaithful hserialize).2⟩

end Declarations

end CheckedModels
