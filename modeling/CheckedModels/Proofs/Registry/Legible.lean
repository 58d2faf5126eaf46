import CheckedModels.Proofs.Conversion.Validate
import CheckedModels.Proofs.Entries
import CheckedModels.Proofs.Registry.PrintedName

/-! Registries in which a printed name tells what it stands for. -/
namespace CheckedModels

namespace Basic

theorem name_injective {a b : Basic} (h : a.name = b.name) : a = b := by
  revert h
  cases a <;> cases b <;> decide

theorem isWord_name (b : Basic) : Sdl.IsWord b.name := by
  cases b <;> exact Sdl.IsName.isWord (by decide)

end Basic

theorem Sdl.IsWord.not_contains_null {name : String} (h : IsWord name) :
    name.contains '\x00' = false := by
  have hnull : '\x00' ∉ name.toList := fun hmem => absurd (h.2 _ hmem) (by decide)
  simpa using hnull

/-- A word that is free to be the name of a definition. -/
structure Sdl.IsFree (name : String) : Prop where
  word : IsWord name
  notNull : name ≠ "null"
  notBasic (b : Basic) : b.name ≠ name

namespace Registry

variable {r : Registry}

theorem mem_keys_iff {key : String} : key ∈ r.keys ↔ ∃ d, r.find? key = some d :=
  Entries.lookup_isSome_iff.symm.trans Option.isSome_iff_exists

/-- Null and array layers around what is basic or registered. -/
inductive Refers (r : Registry) : Descriptor → Prop where
  | basic (b : Basic) : Refers r (.basic b)
  | named {key : String} (h : key ∈ r.keys) : Refers r (.named key)
  | maybeNull {inner : Descriptor} (h : Refers r inner) : Refers r (.maybeNull inner)
  | array {item : Descriptor} (h : Refers r item) : Refers r (.array item)

theorem refers_of_core {d : Descriptor}
    (h : (∃ b, d.core = .basic b) ∨ ∃ key ∈ r.keys, d.core = .named key) : r.Refers d := by
  induction d with
  | basic b => exact .basic b
  | maybeNull inner ih => exact .maybeNull (ih h)
  | array item ih => exact .array (ih h)
  | map item => simp [Descriptor.core] at h
  | named key =>
    obtain ⟨key', hkey, rfl⟩ : ∃ key' ∈ r.keys, key = key' := by simpa [Descriptor.core] using h
    exact .named hkey

/-- A finished definition that has its key for its name. Unions are of models. -/
inductive Plain (r : Registry) (key : String) : Definition → Prop where
  | basic (b : Basic) : Plain r key (.basic b)
  | enumeration {e : Enumeration} (hname : e.name = key) : Plain r key (.enumeration e)
  | model {m : Model} (hname : m.name = key) (finished : m.isSealed = true)
    (h : ∀ p ∈ m.properties, r.Refers p.2) : Plain r key (.model m)
  | union {u : Union} {names : List String} (hnames : u.alternatives = names.map .named)
    (h : ∀ name ∈ names, ∃ m, r.find? name = some (.model m)) : Plain r key (.union u)

theorem Plain.record?_alternative {key : String} {u : Union} (h : r.Plain key (.union u)) :
    ∀ d ∈ u.alternatives, ∃ m, r.record? d = some m := by
  intro d hd
  cases h with
  | union hnames hmodels =>
    obtain ⟨name, hname, rfl⟩ := List.mem_map.mp (hnames ▸ hd)
    obtain ⟨m, hm⟩ := hmodels name hname
    exact ⟨m, record?_named hm⟩

/-- Where definitions are plain, the parts of what is referred to are referred to. -/
theorem Refers.of_part {d e : Descriptor} (hd : r.Refers d)
    (plain : ∀ {key definition}, r.find? key = some definition → r.Plain key definition) (h : r.Part d e) :
    r.Refers e := by
  cases h with
  | maybeNull inner =>
    cases hd with
    | maybeNull hd => exact hd
  | array item =>
    cases hd with
    | array hd => exact hd
  | map item => cases hd
  | property hm hp =>
    cases plain hm with
    | model _ _ hall => exact hall _ hp
  | alternative hu ha =>
    obtain ⟨m, hm⟩ := (plain hu).record?_alternative _ ha
    obtain ⟨key, rfl, hkey⟩ := record?_eq_some_iff.mp hm
    exact .named (mem_keys_iff.mpr ⟨_, hkey⟩)

/-- No conversion can fail for want of a definition: all are plain, and classes can be made of the
models. -/
structure Finished (r : Registry) : Prop where
  plain {key : String} {d : Definition} (h : r.find? key = some d) : r.Plain key d
  named {key : String} {m : Model} (h : r.find? key = some (.model m)) : m.name.contains '\x00' = false

namespace Finished

theorem fault?_eq_none (h : r.Finished) {key : String} {m : Model}
    (hm : r.find? key = some (.model m)) : m.fault? = none := by
  have hnull := h.named hm
  cases h.plain hm with
  | model _ finished => simp [Model.fault?, finished, hnull]

theorem averts (h : r.Finished) (fault : Fault) : r.Averts fault r.Refers where
  part hd hpart := hd.of_part h.plain hpart
  record hd _ := by cases hd
  found hd hnone := by
    cases hd with
    | named hkey =>
      obtain ⟨d, hd⟩ := mem_keys_iff.mp hkey
      simp [hd] at hnone
  fit _ hm _ := by simp [h.fault?_eq_none hm]
  ends _ hu _ := (h.plain hu).record?_alternative

theorem avoids_check (h : r.Finished) {d : Descriptor} (hd : r.Refers d) (fault : Fault) (v : Value) :
    Outcome.Avoids fault (r.check d v) := by
  refine (h.averts fault).avoids_validate hd (fun m hm => ?_) (fun _ => .inl (Nat.le_refl _)) v
  obtain ⟨key, rfl, hkey⟩ := record?_eq_some_iff.mp hm
  simp [h.fault?_eq_none hkey]

theorem nameEnds (h : r.Finished) {d : Descriptor} (hd : r.Refers d) : r.nameEnds d = true := by
  induction hd with
  | basic b => exact nameEnds_basic b
  | maybeNull _ ih | array _ ih => exact ih
  | @named key hkey =>
    obtain ⟨d, hd⟩ := mem_keys_iff.mp hkey
    cases d with
    | union u =>
      obtain ⟨name, hname⟩ := Registry.typeName?_union hd (h.plain hd).record?_alternative
      exact nameEnds_of_typeName? hname
    | basic | enumeration | model => exact nameEnds_of_not_union (by simp [hd])

/-- Every value is accepted or rejected. -/
theorem exists_isValid (h : r.Finished) {d : Descriptor} (hd : r.Refers d) (v : Value) :
    ∃ b, r.isValid d v = .ok b := by
  rw [isValid, convert, onItsOwn_of_nameEnds (h.nameEnds hd)]
  split
  · exact ⟨true, rfl⟩
  · exact ⟨false, rfl⟩
  · next fault heq => exact absurd heq (h.avoids_check hd fault v)

theorem create_cases (h : r.Finished) {d : Descriptor} (hd : r.Refers d) (v : Value) :
    (∃ made, r.create d v = .ok made) ∨ ∃ e, r.create d v = .error (.conversion e) := by
  have hname := typeName?_eq_some (h.nameEnds hd)
  rw [create, convert, onItsOwn_of_nameEnds (h.nameEnds hd)]
  cases hcheck : r.check d (r.input d v) with
  | ok made => exact .inl ⟨made, rfl⟩
  | error failure =>
    cases failure with
    | rejected issues => exact .inr ⟨_, by rw [hname]⟩
    | broken fault => exact absurd hcheck (h.avoids_check hd fault _)

end Finished

structure Legible (r : Registry) : Prop where
  free {key : String} (h : key ∈ r.keys) : Sdl.IsFree key
  plain {key : String} {d : Definition} (h : r.find? key = some d) : r.Plain key d

/-- What a descriptor without layers stands for. -/
def definition? (r : Registry) : Descriptor → Option Definition
  | .basic b => some (.basic b)
  | .named key => r.find? key
  | _ => none

theorem definition?_eq_basic_iff {d : Descriptor} {b : Basic} : r.definition? d = some (.basic b) ↔
    d = .basic b ∨ ∃ key, d = .named key ∧ r.find? key = some (.basic b) := by
  cases d <;> simp [definition?]

/-- The shape of a descriptor's printed name. -/
inductive Prints (r : Registry) : Descriptor → Shape → Prop where
  | basic {d : Descriptor} {b : Basic} (h : r.definition? d = some (.basic b)) : Prints r d (.word b.name)
  | enumeration {key : String} {e : Enumeration} (h : r.find? key = some (.enumeration e)) :
    Prints r (.named key) (.word key)
  | model {key : String} {m : Model} (h : r.find? key = some (.model m)) :
    Prints r (.named key) (.word key)
  | union {key : String} {u : Union} {names : List String} (h : r.find? key = some (.union u))
    (hnames : u.alternatives = names.map .named) : Prints r (.named key) (.union names)
  | maybeNull {inner : Descriptor} {s : Shape} (h : Prints r inner s) :
    Prints r (.maybeNull inner) (.maybeNull s)
  | array {item : Descriptor} {s : Shape} (h : Prints r item s) : Prints r (.array item) (.array s)

namespace Legible

theorem name_eq (h : r.Legible) {key : String} {m : Model} (hm : r.find? key = some (.model m)) :
    m.name = key := by
  cases h.plain hm with
  | model hname => exact hname

theorem isWord (h : r.Legible) {key : String} {d : Definition} (hd : r.find? key = some d) :
    Sdl.IsWord key := (h.free (mem_keys_iff.mpr ⟨d, hd⟩)).word

theorem finished (h : r.Legible) : r.Finished where
  plain := h.plain
  named hm := by
    rw [h.name_eq hm]
    exact (h.isWord hm).not_contains_null

theorem fault?_eq_none (h : r.Legible) {key : String} {m : Model}
    (hm : r.find? key = some (.model m)) : m.fault? = none := h.finished.fault?_eq_none hm

theorem refers_property (h : r.Legible) {key : String} {m : Model}
    (hm : r.find? key = some (.model m)) : ∀ p ∈ m.properties, r.Refers p.2 := by
  cases h.plain hm with
  | model _ _ hall => exact hall

theorem alternatives (h : r.Legible) {key : String} {u : Union} {names : List String}
    (hu : r.find? key = some (.union u)) (hnames : u.alternatives = names.map .named) :
    ∀ name ∈ names, ∃ m, r.find? name = some (.model m) := by
  cases h.plain hu with
  | @union _ others hothers hm =>
    rw [hnames] at hothers
    obtain rfl := List.map_injective_iff.mpr (fun _ _ => Descriptor.named.inj) hothers
    exact hm

theorem record?_alternative (h : r.Legible) {key : String} {u : Union}
    (hu : r.find? key = some (.union u)) : ∀ d ∈ u.alternatives, ∃ m, r.record? d = some m :=
  (h.plain hu).record?_alternative

theorem exists_prints (h : r.Legible) {d : Descriptor} (hd : r.Refers d) : ∃ s, r.Prints d s := by
  induction hd with
  | basic b => exact ⟨_, .basic rfl⟩
  | maybeNull _ ih =>
    obtain ⟨s, hs⟩ := ih
    exact ⟨_, .maybeNull hs⟩
  | array _ ih =>
    obtain ⟨s, hs⟩ := ih
    exact ⟨_, .array hs⟩
  | @named key hkey =>
    obtain ⟨d, hfind⟩ := mem_keys_iff.mp hkey
    cases h.plain hfind with
    | basic b => exact ⟨_, .basic hfind⟩
    | enumeration => exact ⟨_, .enumeration hfind⟩
    | model => exact ⟨_, .model hfind⟩
    | union hnames => exact ⟨_, .union hfind hnames⟩

theorem keyName_union (h : r.Legible) {key : String} {u : Union} {names : List String}
    (hu : r.find? key = some (.union u)) (hnames : u.alternatives = names.map .named) :
    r.keyName (r.entries.length + 1) key = (Shape.union names).print := by
  obtain ⟨n, hn⟩ := Nat.exists_eq_add_one.mpr (length_pos_of_find? hu)
  have hmap : u.alternatives.map (Descriptor.nameWith (r.keyName (n + 1))) = names := by
    rw [hnames, List.map_map]
    refine (List.map_congr_left fun name hname => ?_).trans names.map_id
    obtain ⟨m, hm⟩ := h.alternatives hu hnames name hname
    simp [Descriptor.nameWith, keyName, hm, h.name_eq hm]
  rw [keyName, hu, hn]
  simp only [hmap, Shape.print]

theorem print_eq (h : r.Legible) {d : Descriptor} {s : Shape} (hs : r.Prints d s) :
    s.print = r.typeName d := by
  unfold typeName
  induction hs with
  | basic hd =>
    rcases definition?_eq_basic_iff.mp hd with rfl | ⟨key, rfl, hkey⟩
    · rfl
    · simp [Shape.print, Descriptor.nameWith, keyName, hkey]
  | enumeration hkey =>
    cases h.plain hkey with
    | enumeration hname => simp [Shape.print, Descriptor.nameWith, keyName, hkey, hname]
  | model hkey => simp [Shape.print, Descriptor.nameWith, keyName, hkey, h.name_eq hkey]
  | union hkey hnames => exact (h.keyName_union hkey hnames).symm
  | maybeNull _ ih => simp [Shape.print, Descriptor.nameWith, ih]
  | array _ ih => simp [Shape.print, Descriptor.nameWith, ih]

theorem typeName?_union (h : r.Legible) {key : String} {u : Union} {names : List String}
    (hu : r.find? key = some (.union u)) (hnames : u.alternatives = names.map .named) :
    r.typeName? (.named key) = some (Shape.union names).print := by
  obtain ⟨name, hname⟩ := Registry.typeName?_union hu (h.record?_alternative hu)
  have hprint := h.print_eq (.union hu hnames)
  unfold typeName? at hname ⊢
  split at hname
  · next hends => rw [if_pos hends, hprint]
  · cases hname

theorem proper (h : r.Legible) {d : Descriptor} {s : Shape} (hs : r.Prints d s) : s.Proper := by
  induction hs with
  | @basic _ b _ => exact b.isWord_name
  | enumeration hkey => exact h.isWord hkey
  | model hkey => exact h.isWord hkey
  | union hkey hnames =>
    intro name hname
    obtain ⟨m, hm⟩ := h.alternatives hkey hnames name hname
    have hfree := h.free (mem_keys_iff.mpr ⟨_, hm⟩)
    exact ⟨hfree.word, hfree.notNull⟩
  | maybeNull _ ih => exact ih
  | array _ ih => exact ih

/-- Descriptors of two registries that print alike have one shape. -/
theorem exists_shape {r₁ r₂ : Registry} (h₁ : r₁.Legible) (h₂ : r₂.Legible) {d₁ d₂ : Descriptor}
    (hd₁ : r₁.Refers d₁) (hd₂ : r₂.Refers d₂) (h : r₁.typeName d₁ = r₂.typeName d₂) :
    ∃ s, r₁.Prints d₁ s ∧ r₂.Prints d₂ s := by
  obtain ⟨s, hs⟩ := h₁.exists_prints hd₁
  obtain ⟨t, ht⟩ := h₂.exists_prints hd₂
  have hprint : s.print = t.print := by rw [h₁.print_eq hs, h₂.print_eq ht, h]
  obtain rfl := Shape.print_injective (h₁.proper hs) (h₂.proper ht) hprint
  exact ⟨s, hs, ht⟩

/-- Every value is accepted or rejected. -/
theorem exists_isValid (h : r.Legible) {d : Descriptor} (hd : r.Refers d) (v : Value) :
    ∃ b, r.isValid d v = .ok b := h.finished.exists_isValid hd v

end Legible

end Registry

end CheckedModels
