import CheckedModels.Compile.Compose
import CheckedModels.Proofs.Entries
import Mathlib.Tactic.Tauto

/-! Composing the properties of a model: every key comes once, and only the field that holds the claim
is an identifier. -/
namespace CheckedModels

theorem TypeRef.isIdentifier_wrap {base : Descriptor} (hb : base.isIdentifier = false)
    (nullable : Bool) (t : TypeRef) : (t.wrap base nullable).isIdentifier = false := by
  induction t generalizing nullable with
  | named n => cases nullable <;> simp_all [wrap, Descriptor.isIdentifier]
  | list item => cases nullable <;> simp [wrap, Descriptor.isIdentifier]
  | nonNull inner ih => exact ih false

theorem isIdentifier_builtin? {name : String} {d : Descriptor} (h : builtin? name = some d) :
    d.isIdentifier = false := by
  unfold builtin? at h
  split at h <;> simp_all [Descriptor.isIdentifier] <;> subst h <;> decide

theorem Field.isIdentifier_resolve? {named : String → DeclarationKind → Option Descriptor} {f : Field}
    {d : Descriptor} (hn : ∀ n k e, named n k = some e → e.isIdentifier = false)
    (h : f.resolve? named = some d) : d.isIdentifier = false := by
  obtain ⟨base, hbase, rfl⟩ := Option.map_eq_some_iff.mp h
  refine TypeRef.isIdentifier_wrap ?_ true f.type
  unfold Field.base? at hbase
  split at hbase
  · exact isIdentifier_builtin? hbase
  · exact isIdentifier_builtin? hbase
  · obtain ⟨⟨name, kind⟩, -, hnamed⟩ := Option.bind_eq_some_iff.mp hbase
    exact hn name kind base hnamed

theorem Scope.isIdentifier_resolve? {s : Scope} {f : Field} {d : Descriptor}
    (h : s.resolve? f = some d) : d.isIdentifier = false := by
  refine Field.isIdentifier_resolve? ?_ h
  intro name kind e he
  unfold Scope.named? at he
  split at he
  · rw [← Option.some.inj he]
    rfl
  · simp at he

theorem Field.isIdentifier_plainIdentifier (f : Field) : f.plainIdentifier.isIdentifier = false := by
  unfold Field.plainIdentifier
  split <;> rfl

namespace Claim

theorem take_of_holder {c : Claim} {holder : String} (h : c.holder = some holder) (name : String) :
    c.take name = (holder == name, c) := by
  simp [take, h]

theorem holder_of_take {c : Claim} {name : String} (h : (c.take name).1 = true) :
    (c.take name).2.holder = some name := by
  cases hh : c.holder with
  | some holder =>
    rw [take_of_holder hh] at h ⊢
    simpa [hh] using h
  | none =>
    by_cases hp : c.choice.permits name = true
    · simp [take, hh, hp]
    · simp [take, hh, hp] at h

theorem describe_eq (c : Claim) (f : Field) :
    c.describe f = (if (c.take f.name).1 then .identifier else f.plainIdentifier, (c.take f.name).2) := by
  unfold describe
  rcases c.take f.name with ⟨_ | _, c'⟩ <;> rfl

theorem holder_of_describe {c : Claim} {f : Field} (h : (c.describe f).1.isIdentifier = true) :
    (c.describe f).2.holder = some f.name := by
  rw [describe_eq] at h ⊢
  by_cases ht : (c.take f.name).1 = true
  · exact holder_of_take ht
  · simp [ht, Field.isIdentifier_plainIdentifier] at h

theorem describe_held {c : Claim} {holder : String} (h : c.holder = some holder) (f : Field) :
    (c.describe f).2 = c := by
  rw [describe_eq, take_of_holder h]

end Claim

namespace Composition

/-- Every key once, and no identifier but the holder of the claim. -/
structure Sound (c : Composition) : Prop where
  distinct : (Entries.keys c.properties).Nodup
  holder : ∀ e ∈ c.properties, e.2.isIdentifier = true → c.claim.holder = some e.1

/-- What is claimed stays claimed. -/
theorem holder_add {c : Composition} {holder : String} (h : c.claim.holder = some holder) (f : Field)
    (resolved : Option Descriptor) : (c.add f resolved).claim.holder = some holder := by
  unfold add
  split
  · simpa only [Claim.describe_held h] using h
  · split <;> exact h

theorem Sound.put {c : Composition} (hc : c.Sound) {key : String} {d : Descriptor}
    (hd : d.isIdentifier = true → c.claim.holder = some key) :
    Sound { c with properties := c.properties.put key d } where
  distinct := Entries.nodup_put hc.distinct key d
  holder e he hid := by
    rcases Entries.mem_put he with rfl | he
    · exact hd hid
    · exact hc.holder e he hid

theorem Sound.add {c : Composition} (hc : c.Sound) (f : Field) {resolved : Option Descriptor}
    (hr : ∀ d, resolved = some d → d.isIdentifier = false) : (c.add f resolved).Sound := by
  unfold Composition.add
  split
  · have hstay : ∀ e ∈ c.properties, e.2.isIdentifier = true →
        (c.claim.describe f).2.holder = some e.1 := by
      intro e he hid
      have hheld := hc.holder e he hid
      rw [Claim.describe_held hheld, hheld]
    exact Sound.put (c := ⟨(c.claim.describe f).2, c.properties⟩) ⟨hc.distinct, hstay⟩
      Claim.holder_of_describe
  · cases resolved with
    | none => exact hc
    | some d => exact hc.put fun hid => by simp [hr d rfl] at hid

end Composition

namespace Scope

variable (s : Scope)

theorem holder_addField {c : Composition} {holder : String} (h : c.claim.holder = some holder)
    (f : Field) : (s.addField c f).claim.holder = some holder := c.holder_add h f _

theorem sound_addField {c : Composition} (hc : c.Sound) (f : Field) : (s.addField c f).Sound :=
  hc.add f fun _ h => s.isIdentifier_resolve? h

theorem sound_ownProperties (choice : IdentifierChoice) (fields : List Field) :
    (s.ownProperties choice fields).Sound := by
  unfold ownProperties
  refine List.foldlRecOn fields s.addField ⟨by simp [Entries.keys], by simp⟩ ?_
  exact fun c hc f _ => s.sound_addField hc f

theorem mem_keys_addField {c : Composition} {f : Field} {key : String} :
    key ∈ Entries.keys (s.addField c f).properties ↔
      s.keeps f = true ∧ key = f.name ∨ key ∈ Entries.keys c.properties := by
  unfold addField Composition.add keeps
  cases hf : f.isIdentifierCandidate with
  | true => simpa using Entries.mem_keys_put
  | false =>
    cases hr : s.resolve? f with
    | none => simp
    | some d => simpa using Entries.mem_keys_put

theorem mem_keys_ownProperties {choice : IdentifierChoice} {fields : List Field} {key : String} :
    key ∈ Entries.keys (s.ownProperties choice fields).properties ↔
      key ∈ (fields.filter s.keeps).map Field.name := by
  have hfold : ∀ c : Composition, key ∈ Entries.keys (fields.foldl s.addField c).properties ↔
      key ∈ (fields.filter s.keeps).map Field.name ∨ key ∈ Entries.keys c.properties := by
    induction fields with
    | nil => simp
    | cons f rest ih =>
      intro c
      rw [List.foldl_cons, ih, mem_keys_addField]
      by_cases hk : s.keeps f = true
      · rw [List.filter_cons_of_pos hk, List.map_cons, List.mem_cons]
        tauto
      · rw [List.filter_cons_of_neg hk]
        tauto
  simpa [ownProperties, Entries.keys] using hfold ⟨⟨choice, none⟩, []⟩

theorem name_of_mem_mergedFields {name : String} {e : String × Field} (h : e ∈ s.mergedFields name) :
    e.1 = e.2.name := by
  rcases Entries.mem_putAll h with he | he
  · obtain ⟨d, -, hd⟩ := List.mem_flatMap.mp he
    obtain ⟨f, -, rfl⟩ := List.mem_map.mp hd
    rfl
  · simp at he

/-- A composition on behalf of a model whose own properties are given: the own identifier, if there is
one, holds the claim. -/
structure SoundWith (own : Entries Descriptor) (c : Composition) : Prop extends c.Sound where
  ownHolder : ∀ e ∈ own, e.2.isIdentifier = true → c.claim.holder = some e.1

theorem soundWith_addInherited {own : Entries Descriptor} {c : Composition}
    (hc : SoundWith own c) (f : Field) : SoundWith own (s.addInherited own c f) := by
  unfold addInherited
  cases hl : own.lookup f.name with
  | some d =>
    exact ⟨hc.toSound.put (hc.ownHolder _ (Entries.mem_of_lookup hl)), hc.ownHolder⟩
  | none =>
    exact ⟨s.sound_addField hc.toSound f, fun e he hid => s.holder_addField (hc.ownHolder e he hid) f⟩

theorem soundWith_addInterface {own : Entries Descriptor} {c : Composition}
    (hc : SoundWith own c) (name : String) : SoundWith own (s.addInterface own c name) := by
  unfold addInterface
  split
  · exact List.foldlRecOn _ _ hc fun c hc e _ => s.soundWith_addInherited hc e.2
  · exact hc

theorem soundWith_interfaces {own : Entries Descriptor} {c : Composition} (hc : SoundWith own c)
    (names : List String) : SoundWith own (names.foldl (s.addInterface own) c) :=
  List.foldlRecOn names _ hc fun _ hc name _ => s.soundWith_addInterface hc name

/-- Who has claimed the identifier once all fields are there. -/
def finalClaim (choice : IdentifierChoice) (d : Declaration) : Claim :=
  let own := s.ownProperties choice d.fields
  (d.interfaces.foldl (s.addInterface own.properties) ⟨own.claim, []⟩).claim

/-- The composition of a whole model, with its own fields over the inherited ones. -/
theorem sound_compose (choice : IdentifierChoice) (d : Declaration) :
    (⟨s.finalClaim choice d, s.compose choice d⟩ : Composition).Sound := by
  let own := s.ownProperties choice d.fields
  let inherited := d.interfaces.foldl (s.addInterface own.properties) ⟨own.claim, []⟩
  have hstart : SoundWith own.properties ⟨own.claim, []⟩ :=
    ⟨⟨by simp [Entries.keys], by simp⟩, (s.sound_ownProperties choice d.fields).holder⟩
  have hall : SoundWith own.properties inherited := s.soundWith_interfaces hstart d.interfaces
  refine ⟨Entries.nodup_putAll hall.distinct _, ?_⟩
  intro e he hid
  rcases Entries.mem_putAll he with he | he
  · exact hall.ownHolder e he hid
  · exact hall.holder e he hid

theorem lookup_compose_of_own {choice : IdentifierChoice} {d : Declaration} {key : String}
    {p : Descriptor} (h : (s.ownProperties choice d.fields).properties.lookup key = some p) :
    (s.compose choice d).lookup key = some p := by
  rw [compose, Entries.lookup_putAll_of_nodup (s.sound_ownProperties choice d.fields).distinct, h]
  rfl

theorem nodup_keys_compose (choice : IdentifierChoice) (d : Declaration) :
    (Entries.keys (s.compose choice d)).Nodup := (s.sound_compose choice d).distinct

theorem holder_of_mem_identifierKeys {choice : IdentifierChoice} {d : Declaration} {key : String}
    (h : key ∈ Model.identifierKeys (s.compose choice d)) :
    (s.finalClaim choice d).holder = some key := by
  obtain ⟨e, he, rfl⟩ := List.mem_map.mp h
  obtain ⟨hmem, hid⟩ := List.mem_filter.mp he
  exact (s.sound_compose choice d).holder e hmem hid

theorem length_identifierKeys_compose (choice : IdentifierChoice) (d : Declaration) :
    (Model.identifierKeys (s.compose choice d)).length ≤ 1 := by
  have hsub : (Model.identifierKeys (s.compose choice d)).Nodup :=
    (s.nodup_keys_compose choice d).sublist (List.filter_sublist.map Prod.fst)
  have hall : ∀ key ∈ Model.identifierKeys (s.compose choice d),
      (s.finalClaim choice d).holder = some key := fun _ => s.holder_of_mem_identifierKeys
  generalize Model.identifierKeys (s.compose choice d) = keys at hsub hall
  match keys with
  | [] => simp
  | [_] => simp
  | a :: b :: rest =>
    have ha := hall a (by simp)
    have hb := hall b (by simp)
    have : a = b := Option.some.inj (ha.symm.trans hb)
    simp [this] at hsub

end Scope

/-- A model with one identifier at most has it under the key that is its identifier. -/
theorem Model.identifier?_eq_some_iff {m : Model} (h : (identifierKeys m.properties).length ≤ 1)
    {key : String} : m.identifier? = some key ↔ (key, .identifier) ∈ m.properties := by
  have hmem : key ∈ identifierKeys m.properties ↔ (key, .identifier) ∈ m.properties := by
    simp [identifierKeys, Descriptor.isIdentifier]
  rw [← hmem, identifier?]
  generalize identifierKeys m.properties = keys at h
  match keys with
  | [] => simp
  | [only] => simp [eq_comm]
  | _ :: _ :: _ => simp at h

end CheckedModels
