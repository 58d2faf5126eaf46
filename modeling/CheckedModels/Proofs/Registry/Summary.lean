import CheckedModels.Proofs.Json.Writer
import CheckedModels.Proofs.Registry.Legible
import CheckedModels.Registry.Summary

/-! Registries that are written alike validate alike: their definitions go together key by key, and a
descriptor of the one validates as any descriptor of the other that has its printed name. -/
namespace CheckedModels

theorem Json.record_injective {members others : Entries Json} (h : record members = record others) :
    members = others := by
  refine List.map_injective_iff.mpr (fun e f heq => ?_) (Json.obj.inj h)
  obtain ⟨hname, hvalue⟩ := Prod.mk.inj heq
  exact Prod.ext (Text.whole.inj hname) hvalue

theorem TypeKind.text_injective {a b : TypeKind} (h : a.text = b.text) : a = b := by
  revert h
  cases a <;> cases b <;> decide

namespace Registry

section Writing

variable (r : Registry)

theorem ofStrings_heading (d : Descriptor) : ∀ e ∈ r.heading d, e.2.OfStrings := by
  exact List.forall_mem_cons.mpr ⟨.str _, List.forall_mem_singleton.mpr (.str _)⟩

theorem ofStrings_texts (texts : List String) :
    (Json.arr (texts.map fun (text : String) => .str text)).OfStrings := by
  refine .arr fun x hx => ?_
  obtain ⟨text, -, rfl⟩ := List.mem_map.mp hx
  exact .str text

/-- A member that is there only if there is a text for it. -/
theorem ofStrings_optional (label : String) (text? : Option String) :
    ∀ e ∈ (text?.map fun text => (label, Json.str text)).toList, e.2.OfStrings := by
  cases text? with
  | none => simp
  | some text => exact List.forall_mem_singleton.mpr (.str text)

theorem exists_summary_eq (key : String) : ∃ rest : Entries Json,
    r.summary (.named key) = .record (r.heading (.named key) ++ rest) ∧ ∀ e ∈ rest, e.2.OfStrings := by
  unfold summary
  dsimp only
  split
  · next m _ =>
    rw [List.append_assoc]
    refine ⟨_, rfl, List.forall_mem_append.mpr ⟨List.forall_mem_singleton.mpr ?_, ?_⟩⟩
    · refine Json.ofStrings_record fun e he => ?_
      obtain ⟨p, -, rfl⟩ := List.mem_map.mp he
      exact .str _
    · exact ofStrings_optional "identifier" m.identifier?
  · next e _ => exact ⟨_, rfl, List.forall_mem_singleton.mpr (ofStrings_texts e.values)⟩
  · next u _ =>
    rw [List.append_assoc]
    refine ⟨_, rfl, List.forall_mem_append.mpr ⟨List.forall_mem_singleton.mpr ?_, ?_⟩⟩
    · have htexts := ofStrings_texts (u.alternatives.map r.typeName)
      rwa [List.map_map] at htexts
    · exact ofStrings_optional "declared_name" u.declaredName
  · exact ⟨[], by rw [List.append_nil], by simp⟩

theorem ofStrings_document : r.document.OfStrings := by
  refine Json.ofStrings_record (List.forall_mem_cons.mpr ⟨.str _, ?_⟩)
  refine List.forall_mem_singleton.mpr (Json.ofStrings_record fun e he => ?_)
  obtain ⟨key, -, rfl⟩ := List.mem_map.mp he
  obtain ⟨rest, hsummary, hrest⟩ := r.exists_summary_eq key
  rw [hsummary]
  exact Json.ofStrings_record (List.forall_mem_append.mpr ⟨r.ofStrings_heading _, hrest⟩)

end Writing

variable {r₁ r₂ : Registry}

/-- One text is written for one list of keys and one summary of each. -/
theorem summary_eq_of_serialize (h : r₁.serialize = r₂.serialize) : r₁.keys = r₂.keys ∧
    ∀ key ∈ r₁.keys, r₁.summary (.named key) = r₂.summary (.named key) := by
  have hdocument := Json.write_injective r₁.ofStrings_document r₂.ofStrings_document h
  have htypes := Json.record_injective hdocument
  simp only [List.cons.injEq, Prod.mk.injEq, true_and, and_true] at htypes
  have hentries := Json.record_injective htypes
  have hkeys : r₁.keys = r₂.keys := by
    simpa [Function.comp_def] using congrArg (List.map Prod.fst) hentries
  rw [← hkeys] at hentries
  refine ⟨hkeys, fun key hkey => ?_⟩
  exact (Prod.mk.inj (List.map_inj_left.mp hentries key hkey)).2

theorem heading_eq_of_summary {key : String} (h : r₁.summary (.named key) = r₂.summary (.named key)) :
    r₁.kind (.named key) = r₂.kind (.named key) ∧ r₁.typeName (.named key) = r₂.typeName (.named key) := by
  obtain ⟨rest₁, h₁, -⟩ := r₁.exists_summary_eq key
  obtain ⟨rest₂, h₂, -⟩ := r₂.exists_summary_eq key
  rw [h₁, h₂] at h
  have hmembers := Json.record_injective h
  simp only [heading, List.cons_append, List.cons.injEq, Prod.mk.injEq, Json.str.injEq,
    Text.whole.injEq, true_and] at hmembers
  exact ⟨TypeKind.text_injective hmembers.1, hmembers.2.1⟩

theorem kind_named {r : Registry} {key : String} {d : Definition} (h : r.find? key = some d) :
    r.kind (.named key) = d.kind := by
  simp [kind, h]

/-- Definitions of which the same is told. Of a union the printed name tells everything. -/
inductive Matches (r₁ r₂ : Registry) : Definition → Definition → Prop where
  | basic (b : Basic) : Matches r₁ r₂ (.basic b) (.basic b)
  | enumeration {e₁ e₂ : Enumeration} (h : e₁.values = e₂.values) :
    Matches r₁ r₂ (.enumeration e₁) (.enumeration e₂)
  | model {m₁ m₂ : Model}
    (h : Entries.Related (fun d e => r₁.typeName d = r₂.typeName e) m₁.properties m₂.properties) :
    Matches r₁ r₂ (.model m₁) (.model m₂)
  | union (u₁ u₂ : Union) : Matches r₁ r₂ (.union u₁) (.union u₂)

section

variable {key : String}

theorem related_of_summary {m₁ m₂ : Model} (h₁ : r₁.find? key = some (.model m₁))
    (h₂ : r₂.find? key = some (.model m₂)) (h : r₁.summary (.named key) = r₂.summary (.named key)) :
    Entries.Related (fun d e => r₁.typeName d = r₂.typeName e) m₁.properties m₂.properties := by
  have hmembers := Json.record_injective (by simpa only [summary, h₁, h₂] using h)
  simp only [heading, List.cons_append, List.nil_append, List.cons.injEq, Prod.mk.injEq, true_and]
    at hmembers
  have hproperties := Json.record_injective hmembers.2.2.1
  rw [← List.forall₂_eq_eq_eq, List.forall₂_map_left_iff, List.forall₂_map_right_iff] at hproperties
  refine hproperties.imp fun p q hpq => ?_
  obtain ⟨hname, htype⟩ := Prod.mk.inj hpq
  exact ⟨hname, Text.whole.inj (Json.str.inj htype)⟩

theorem values_eq_of_summary {e₁ e₂ : Enumeration} (h₁ : r₁.find? key = some (.enumeration e₁))
    (h₂ : r₂.find? key = some (.enumeration e₂))
    (h : r₁.summary (.named key) = r₂.summary (.named key)) : e₁.values = e₂.values := by
  have hmembers := Json.record_injective (by simpa only [summary, h₁, h₂] using h)
  simp only [heading, List.cons_append, List.nil_append, List.cons.injEq, Prod.mk.injEq, true_and]
    at hmembers
  refine List.map_injective_iff.mpr (fun a b hab => ?_) (Json.arr.inj hmembers.2.2.1)
  exact Text.whole.inj (Json.str.inj hab)

/-- The summaries of a key tell whether its definitions match. -/
theorem matches_of_summary {d₁ d₂ : Definition} (h₁ : r₁.find? key = some d₁)
    (h₂ : r₂.find? key = some d₂) (h : r₁.summary (.named key) = r₂.summary (.named key)) :
    Matches r₁ r₂ d₁ d₂ := by
  obtain ⟨hkind, hname⟩ := heading_eq_of_summary h
  rw [kind_named h₁, kind_named h₂] at hkind
  cases d₁ with
  | basic b =>
    cases d₂ with
    | basic c =>
      simp only [typeName, Descriptor.nameWith, keyName, h₁, h₂] at hname
      rw [Basic.name_injective hname]
      exact .basic c
    | enumeration | model | union => cases b <;> cases hkind
  | enumeration e =>
    cases d₂ with
    | basic c => cases c <;> cases hkind
    | enumeration => exact .enumeration (values_eq_of_summary h₁ h₂ h)
    | model | union => cases hkind
  | model m =>
    cases d₂ with
    | basic c => cases c <;> cases hkind
    | model => exact .model (related_of_summary h₁ h₂ h)
    | enumeration | union => cases hkind
  | union u =>
    cases d₂ with
    | basic c => cases c <;> cases hkind
    | union => exact .union _ _
    | enumeration | model => cases hkind

end

end Registry

end CheckedModels
