import CheckedModels.Proofs.Registry.Summary

/-! Registries of one summary: descriptors with one printed name validate every value alike. An instance
is told by the key of its model, so it counts as one of the model under that key in either registry. -/
namespace CheckedModels.Registry

/-- Legible registries of which the same is told, key by key. -/
structure Twins (r₁ r₂ : Registry) : Prop where
  left : r₁.Legible
  right : r₂.Legible
  keys : r₁.keys = r₂.keys
  name {key : String} (h : key ∈ r₁.keys) : r₁.typeName (.named key) = r₂.typeName (.named key)
  same {key : String} {d₁ d₂ : Definition} (h₁ : r₁.find? key = some d₁)
    (h₂ : r₂.find? key = some d₂) : Matches r₁ r₂ d₁ d₂

/-- Descriptors with one printed name. -/
structure Namesakes (r₁ r₂ : Registry) (d₁ d₂ : Descriptor) : Prop where
  left : r₁.Refers d₁
  right : r₂.Refers d₂
  name : r₁.typeName d₁ = r₂.typeName d₂

/-- Descriptors that are alike down to the properties of models, which are namesakes again. -/
inductive Alike (r₁ r₂ : Registry) : Descriptor → Descriptor → Prop where
  | basic {d₁ d₂ : Descriptor} {b : Basic} (h₁ : r₁.definition? d₁ = some (.basic b))
    (h₂ : r₂.definition? d₂ = some (.basic b)) : Alike r₁ r₂ d₁ d₂
  | enumeration {key : String} {e : Enumeration} (h₁ : r₁.find? key = some (.enumeration e))
    (h₂ : r₂.find? key = some (.enumeration e)) : Alike r₁ r₂ (.named key) (.named key)
  | model {key : String} {m₁ m₂ : Model} (h₁ : r₁.find? key = some (.model m₁))
    (h₂ : r₂.find? key = some (.model m₂))
    (h : Entries.Related (Namesakes r₁ r₂) m₁.properties m₂.properties) :
    Alike r₁ r₂ (.named key) (.named key)
  | union {key₁ key₂ : String} {u₁ u₂ : Union} {names : List String}
    (h₁ : r₁.find? key₁ = some (.union u₁)) (h₂ : r₂.find? key₂ = some (.union u₂))
    (names₁ : u₁.alternatives = names.map .named) (names₂ : u₂.alternatives = names.map .named)
    (h : ∀ name ∈ names, Alike r₁ r₂ (.named name) (.named name)) :
    Alike r₁ r₂ (.named key₁) (.named key₂)
  | maybeNull {d₁ d₂ : Descriptor} (h : Alike r₁ r₂ d₁ d₂) :
    Alike r₁ r₂ (.maybeNull d₁) (.maybeNull d₂)
  | array {d₁ d₂ : Descriptor} (h : Alike r₁ r₂ d₁ d₂) : Alike r₁ r₂ (.array d₁) (.array d₂)

variable {r₁ r₂ : Registry} {d₁ d₂ : Descriptor}

theorem twins_of_serialize (h₁ : r₁.Legible) (h₂ : r₂.Legible) (h : r₁.serialize = r₂.serialize) :
    Twins r₁ r₂ := by
  obtain ⟨hkeys, hsummary⟩ := summary_eq_of_serialize h
  refine ⟨h₁, h₂, hkeys, fun hkey => (heading_eq_of_summary (hsummary _ hkey)).2, ?_⟩
  intro key d₁ d₂ hd₁ hd₂
  exact matches_of_summary hd₁ hd₂ (hsummary key (mem_keys_iff.mpr ⟨d₁, hd₁⟩))

/-- A word is the name of something basic, or the key of an enumeration or a model. -/
theorem Prints.word_cases {r : Registry} {d : Descriptor} {name : String} (h : r.Prints d (.word name)) :
    (∃ b, b.name = name ∧ r.definition? d = some (.basic b)) ∨ d = .named name ∧ name ∈ r.keys ∧
      ((∃ e, r.find? name = some (.enumeration e)) ∨ ∃ m, r.find? name = some (.model m)) := by
  generalize hs : Shape.word name = s at h
  cases h with
  | basic hb => exact .inl ⟨_, (Shape.word.inj hs).symm, hb⟩
  | enumeration he =>
    obtain rfl := Shape.word.inj hs
    exact .inr ⟨rfl, mem_keys_iff.mpr ⟨_, he⟩, .inl ⟨_, he⟩⟩
  | model hm =>
    obtain rfl := Shape.word.inj hs
    exact .inr ⟨rfl, mem_keys_iff.mpr ⟨_, hm⟩, .inr ⟨_, hm⟩⟩
  | union | maybeNull | array => cases hs

namespace Twins

variable (h : Twins r₁ r₂)
include h

theorem length_eq : r₁.entries.length = r₂.entries.length := by
  simpa only [Registry.keys, Entries.keys, List.length_map] using congrArg List.length h.keys

theorem find?_right {key : String} {d : Definition} (hd : r₁.find? key = some d) :
    ∃ e, r₂.find? key = some e ∧ Matches r₁ r₂ d e := by
  obtain ⟨e, he⟩ := mem_keys_iff.mp (h.keys ▸ mem_keys_iff.mpr ⟨d, hd⟩)
  exact ⟨e, he, h.same hd he⟩

theorem namesakes_named {key : String} (hkey : key ∈ r₁.keys) :
    Namesakes r₁ r₂ (.named key) (.named key) :=
  ⟨.named hkey, .named (h.keys ▸ hkey), h.name hkey⟩

theorem find?_model {key : String} {m₁ : Model} (h₁ : r₁.find? key = some (.model m₁)) :
    ∃ m₂, r₂.find? key = some (.model m₂) ∧
      Entries.Related (Namesakes r₁ r₂) m₁.properties m₂.properties := by
  obtain ⟨e, h₂, hsame⟩ := h.find?_right h₁
  cases hsame with
  | model hrelated =>
    have hall := hrelated.and_of_mem (h.left.refers_property h₁) (h.right.refers_property h₂)
    exact ⟨_, h₂, hall.imp fun d e hde => ⟨hde.1, hde.2.1, hde.2.2⟩⟩

theorem alike_model {key : String} {m : Model} (hm : r₁.find? key = some (.model m)) :
    Alike r₁ r₂ (.named key) (.named key) := by
  obtain ⟨m₂, hm₂, hrelated⟩ := h.find?_model hm
  exact .model hm hm₂ hrelated

theorem alike_enumeration {key : String} {e : Enumeration} (he : r₁.find? key = some (.enumeration e)) :
    Alike r₁ r₂ (.named key) (.named key) := by
  obtain ⟨d, hd, hsame⟩ := h.find?_right he
  cases hsame with
  | @enumeration _ e₂ hvalues =>
    cases h.left.plain he with
    | enumeration hname₁ =>
      cases h.right.plain hd with
      | enumeration hname₂ =>
        obtain ⟨name, values⟩ := e
        obtain ⟨name₂, values₂⟩ := e₂
        obtain rfl : values = values₂ := hvalues
        obtain rfl : name = name₂ := hname₁.trans hname₂.symm
        exact .enumeration he hd

theorem alike_of_prints {s : Shape} (h₁ : r₁.Prints d₁ s) (h₂ : r₂.Prints d₂ s) : Alike r₁ r₂ d₁ d₂ := by
  induction s generalizing d₁ d₂ with
  | word name =>
    -- No key is the name of something basic, so a word stands for the same in both.
    rcases h₁.word_cases with ⟨b, rfl, hb⟩ | ⟨rfl, hkey, hfind⟩
    · rcases h₂.word_cases with ⟨c, hname, hc⟩ | ⟨-, hkey, -⟩
      · rw [Basic.name_injective hname] at hc
        exact .basic hb hc
      · exact absurd rfl ((h.right.free hkey).notBasic b)
    · rcases h₂.word_cases with ⟨c, hname, -⟩ | ⟨rfl, -, -⟩
      · exact absurd hname ((h.left.free hkey).notBasic c)
      · rcases hfind with ⟨e, he⟩ | ⟨m, hm⟩
        · exact h.alike_enumeration he
        · exact h.alike_model hm
  | union names =>
    cases h₁ with
    | union hu₁ names₁ =>
      cases h₂ with
      | union hu₂ names₂ =>
        refine .union hu₁ hu₂ names₁ names₂ fun name hname => ?_
        obtain ⟨m, hm⟩ := h.left.alternatives hu₁ names₁ name hname
        exact h.alike_model hm
  | maybeNull s ih =>
    cases h₁ with
    | maybeNull h₁ =>
      cases h₂ with
      | maybeNull h₂ => exact .maybeNull (ih h₁ h₂)
  | array s ih =>
    cases h₁ with
    | array h₁ =>
      cases h₂ with
      | array h₂ => exact .array (ih h₁ h₂)

theorem alike (hd : Namesakes r₁ r₂ d₁ d₂) : Alike r₁ r₂ d₁ d₂ := by
  obtain ⟨s, h₁, h₂⟩ := h.left.exists_shape h.right hd.left hd.right hd.name
  exact h.alike_of_prints h₁ h₂

end Twins

section Layers

variable {unions : Nat} {v : Value}

theorem validate_definition {r : Registry} {d : Descriptor} {b : Basic}
    (h : r.definition? d = some (.basic b)) : r.validate unions d v = b.validate v := by
  rcases definition?_eq_basic_iff.mp h with rfl | ⟨key, rfl, hkey⟩
  · exact validate_basic b v
  · exact validate_named_basic hkey v

theorem record?_of_basic {r : Registry} {d : Descriptor} {b : Basic}
    (h : r.definition? d = some (.basic b)) : r.record? d = none := by
  rcases definition?_eq_basic_iff.mp h with rfl | ⟨key, rfl, hkey⟩
  · rfl
  · simp [record?, model?, hkey]

theorem isMaybeNull_of_basic {r : Registry} {d : Descriptor} {b : Basic}
    (h : r.definition? d = some (.basic b)) : d.isMaybeNull = false := by
  rcases definition?_eq_basic_iff.mp h with rfl | ⟨key, rfl, -⟩ <;> rfl

theorem Alike.isMaybeNull_eq (hd : Alike r₁ r₂ d₁ d₂) : d₁.isMaybeNull = d₂.isMaybeNull := by
  cases hd with
  | basic h₁ h₂ => rw [isMaybeNull_of_basic h₁, isMaybeNull_of_basic h₂]
  | enumeration | model | union | maybeNull | array => rfl

variable (h : Twins r₁ r₂)
include h

theorem Twins.name_eq {key : String} {m₁ m₂ : Model} (h₁ : r₁.find? key = some (.model m₁))
    (h₂ : r₂.find? key = some (.model m₂)) : m₁.name = m₂.name :=
  (h.left.name_eq h₁).trans (h.right.name_eq h₂).symm

theorem Twins.embed_eq (hd : Alike r₁ r₂ d₁ d₂) (x : Outcome) : r₁.embed d₁ x = r₂.embed d₂ x := by
  unfold embed
  cases hd with
  | basic h₁ h₂ => rw [record?_of_basic h₁, record?_of_basic h₂]
  | enumeration h₁ h₂ => simp [record?, model?, h₁, h₂]
  | union h₁ h₂ => simp [record?, model?, h₁, h₂]
  | model h₁ h₂ => simp [record?, model?, h₁, h₂, h.name_eq h₁ h₂]
  | maybeNull | array => rfl

/-- The values that a property of a model finds validate alike. -/
theorem Twins.part_eq {entries : List (Scalar × Value)} {p q : String × Descriptor} (hname : p.1 = q.1)
    (hd : Alike r₁ r₂ p.2 q.2)
    (hcheck : ∀ x, Value.under? entries q.1 = some x → r₁.check p.2 x = r₂.check q.2 x) :
    r₁.part entries p = r₂.part entries q := by
  unfold part
  rw [hname]
  cases hx : Value.under? entries q.1 with
  | none => simp only [Model.omitted, hd.isMaybeNull_eq]
  | some x => simp only [hcheck x hx, h.embed_eq hd]

theorem Twins.validate_model {key : String} {m₁ m₂ : Model} (h₁ : r₁.find? key = some (.model m₁))
    (h₂ : r₂.find? key = some (.model m₂))
    (hrelated : Entries.Related (Namesakes r₁ r₂) m₁.properties m₂.properties)
    (hcheck : ∀ d₁ d₂, Alike r₁ r₂ d₁ d₂ → ∀ x, sizeOf x < sizeOf v → r₁.check d₁ x = r₂.check d₂ x) :
    r₁.validate unions (.named key) v = r₂.validate unions (.named key) v := by
  have hfault₁ := h.left.fault?_eq_none h₁
  have hfault₂ := h.right.fault?_eq_none h₂
  have hname := h.name_eq h₁ h₂
  cases v with
  | dict entries =>
    have hparts : m₁.properties.map (fun p => (Step.key p.1, r₁.part entries p)) =
        m₂.properties.map fun q => (Step.key q.1, r₂.part entries q) := by
      rw [← List.forall₂_eq_eq_eq, List.forall₂_map_left_iff, List.forall₂_map_right_iff]
      refine List.Forall₂.imp (fun p q hpq => ?_) hrelated
      obtain ⟨hkey, hsame⟩ := hpq
      have hd := h.alike hsame
      have hpart : r₁.part entries p = r₂.part entries q := by
        refine h.part_eq hkey hd fun x hx => hcheck _ _ hd x ?_
        have hsize := Value.sizeOf_under hx
        simp only [Value.dict.sizeOf_spec]
        omega
      rw [hkey, hpart]
    have hkeys : m₁.toClass.fields.map ClassField.key = m₂.toClass.fields.map ClassField.key := by
      rw [m₁.keys_toClass, m₂.keys_toClass, hrelated.keys_eq]
    have hstrays : m₁.toClass.strays entries = m₂.toClass.strays entries := by
      simp only [RecordClass.strays, hkeys]
    have hattributes : m₁.toClass.fields.map ClassField.name = m₂.toClass.fields.map ClassField.name := by
      rw [m₁.names_toClass, m₂.names_toClass, hrelated.keys_eq]
      exact List.map_congr_left fun k _ => by rw [Model.attributeName, Model.attributeName, hrelated.keys_eq]
    have hclass : m₁.toClass.name = m₂.toClass.name ∧ m₁.toClass.attributes = m₂.toClass.attributes :=
      ⟨hname, congrArg AttributeName.ofKeys hrelated.keys_eq⟩
    have hbuild : m₁.toClass.build key = m₂.toClass.build key := by
      funext parts
      rw [RecordClass.build, RecordClass.build, hattributes, hclass.1, hclass.2]
    rw [validate_dict h₁ hfault₁, validate_dict h₂ hfault₂, hparts, hstrays, hbuild]
  | «instance» serial model name attributes held =>
    rw [validate, validate, h₁, h₂]
    simp only [hfault₁, hfault₂, hname]
  | scalar | list | tuple =>
    rw [validate_not_model h₁ hfault₁ (by simp) (by simp),
      validate_not_model h₂ hfault₂ (by simp) (by simp), hname]

theorem Twins.isInstanceOf_eq {names : List String}
    (hnames : ∀ name ∈ names, ∃ m, r₁.find? name = some (.model m)) (v : Value) :
    r₁.isInstanceOf v (names.map .named) = r₂.isInstanceOf v (names.map .named) := by
  induction names with
  | nil => rfl
  | cons name rest ih =>
    obtain ⟨⟨m₁, h₁⟩, hrest⟩ := List.forall_mem_cons.mp hnames
    obtain ⟨m₂, h₂, -⟩ := h.find?_model h₁
    simp only [List.map_cons, isInstanceOf, record?_named h₁, record?_named h₂,
      h.left.fault?_eq_none h₁, h.right.fault?_eq_none h₂, ih hrest]

theorem Twins.validate_union {key₁ key₂ : String} {u₁ u₂ : Union} {names : List String}
    (h₁ : r₁.find? key₁ = some (.union u₁)) (h₂ : r₂.find? key₂ = some (.union u₂))
    (names₁ : u₁.alternatives = names.map .named) (names₂ : u₂.alternatives = names.map .named)
    (hparts : ∀ n, ∀ name ∈ names, r₁.validate n (.named name) v = r₂.validate n (.named name) v) :
    r₁.validate unions (.named key₁) v = r₂.validate unions (.named key₂) v := by
  have hinstance := h.isInstanceOf_eq (h.left.alternatives h₁ names₁) v
  rw [validate, validate, h₁, h₂]
  simp only [names₁, names₂, hinstance]
  split
  · rfl
  · rfl
  · cases unions with
    | zero => rfl
    | succ n =>
      have hmap : (names.map Descriptor.named).map (fun a => r₁.onItsOwn a (r₁.validate n a v)) =
          (names.map Descriptor.named).map fun a => r₂.onItsOwn a (r₂.validate n a v) := by
        rw [List.map_map, List.map_map]
        refine List.map_congr_left fun name hname => ?_
        obtain ⟨m₁, hm₁⟩ := h.left.alternatives h₁ names₁ name hname
        obtain ⟨m₂, hm₂⟩ := h.right.alternatives h₂ names₂ name hname
        have hends₁ := nameEnds_of_record (record?_named hm₁)
        have hends₂ := nameEnds_of_record (record?_named hm₂)
        simp only [Function.comp_apply, onItsOwn_of_nameEnds hends₁, onItsOwn_of_nameEnds hends₂,
          hparts n name hname]
      simp only [h.left.typeName?_union h₁ names₁, h.right.typeName?_union h₂ names₂, hmap]

/-- What is alike validates a value alike if it does all smaller values. -/
theorem Twins.validate_step (hd : Alike r₁ r₂ d₁ d₂)
    (hcheck : ∀ d₁ d₂, Alike r₁ r₂ d₁ d₂ → ∀ x, sizeOf x < sizeOf v → r₁.check d₁ x = r₂.check d₂ x) :
    r₁.validate unions d₁ v = r₂.validate unions d₂ v := by
  induction hd generalizing unions with
  | basic h₁ h₂ => rw [validate_definition h₁, validate_definition h₂]
  | enumeration h₁ h₂ => rw [validate_named_enumeration h₁, validate_named_enumeration h₂]
  | model h₁ h₂ hrelated => exact h.validate_model h₁ h₂ hrelated hcheck
  | union h₁ h₂ names₁ names₂ _ ih =>
    exact h.validate_union h₁ h₂ names₁ names₂ fun n name hname => ih name hname
  | @maybeNull inner₁ inner₂ hd ih =>
    by_cases hv : v = .null
    · subst hv
      rw [validate_maybeNull_null, validate_maybeNull_null]
    · rw [validate_maybeNull hv, validate_maybeNull hv, ih, h.embed_eq hd]
  | @array item₁ item₂ hd ih =>
    cases hv : v.items? with
    | some items =>
      have hitems : items.mapIdx (fun i x => (Step.index i, r₁.embed item₁ (r₁.check item₁ x))) =
          items.mapIdx fun i x => (Step.index i, r₂.embed item₂ (r₂.check item₂ x)) := by
        refine List.mapIdx_eq_mapIdx_iff.mpr fun i hi => ?_
        have hitem := hcheck _ _ hd _ (Value.sizeOf_item hv (List.getElem_mem hi))
        rw [hitem, h.embed_eq hd]
      rw [validate_array hv, validate_array hv, hitems]
    | none => rw [validate_array_of_none hv, validate_array_of_none hv]

/-- What is alike validates every value alike, by induction on the size of the value: the definitions may
be cyclic, and only a step into the value leads from a model to its properties. -/
theorem Twins.check_eq (hd : Alike r₁ r₂ d₁ d₂) (v : Value) : r₁.check d₁ v = r₂.check d₂ v := by
  induction hsize : sizeOf v using Nat.strongRecOn generalizing d₁ d₂ v with
  | ind size ih =>
    subst hsize
    unfold check
    rw [h.length_eq]
    exact h.validate_step hd fun d₁ d₂ hd x hx => ih (sizeOf x) hx hd x rfl

end Layers

/-- A name of registries that are written alike accepts and rejects the same in both. -/
theorem exists_isValid_of_serialize (h₁ : r₁.Legible) (h₂ : r₂.Legible) (h : r₁.serialize = r₂.serialize)
    {key : String} (hkey : key ∈ r₁.keys) (v : Value) :
    ∃ b, r₁.isValid (.named key) v = .ok b ∧ r₂.isValid (.named key) v = .ok b := by
  have htwins := twins_of_serialize h₁ h₂ h
  obtain ⟨b, hb⟩ := h₁.exists_isValid (.named hkey) v
  have hcheck := htwins.check_eq (htwins.alike (htwins.namesakes_named hkey)) v
  refine ⟨b, hb, ?_⟩
  rw [isValid, convert, onItsOwn_of_nameEnds (h₁.finished.nameEnds (.named hkey))] at hb
  rwa [isValid, convert, onItsOwn_of_nameEnds (h₂.finished.nameEnds (.named (htwins.keys ▸ hkey))), ← hcheck]

end CheckedModels.Registry
