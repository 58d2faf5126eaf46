import CheckedModels.Compile.Compose
import CheckedModels.Compile.Workshop
import CheckedModels.Proofs.Entries

/-! What refers to names, and what refers to the keys that are registered under them. -/
namespace CheckedModels

/-- For each name in the first descriptor, the second has the key that is registered under it. -/
inductive Descriptor.Links (names : Entries String) : Descriptor → Descriptor → Prop where
  | basic (b : Basic) : Links names (.basic b) (.basic b)
  | maybeNull {d e : Descriptor} (h : Links names d e) : Links names (.maybeNull d) (.maybeNull e)
  | array {d e : Descriptor} (h : Links names d e) : Links names (.array d) (.array e)
  | named {name key : String} (h : names.lookup name = some key) :
    Links names (.named name) (.named key)

/-- As for descriptors, in every property and every alternative. -/
inductive Definition.Links (names : Entries String) : Definition → Definition → Prop where
  | basic (b : Basic) : Links names (.basic b) (.basic b)
  | enumeration (e : Enumeration) : Links names (.enumeration e) (.enumeration e)
  | model {name : String} {ps qs : Entries Descriptor} {isSealed : Bool}
    (h : Entries.Related (Descriptor.Links names) ps qs) :
    Links names (.model ⟨name, ps, isSealed⟩) (.model ⟨name, qs, isSealed⟩)
  | union {name : Option String} {ds es : List Descriptor} {isSealed : Bool}
    (h : List.Forall₂ (Descriptor.Links names) ds es) :
    Links names (.union ⟨name, ds, isSealed⟩) (.union ⟨name, es, isSealed⟩)

variable {names more : Entries String}

namespace Descriptor.Links

variable {d e : Descriptor}

theorem mono (h : d.Links names e) (hm : names <+: more) : d.Links more e := by
  induction h with
  | basic b => exact .basic b
  | maybeNull _ ih => exact .maybeNull ih
  | array _ ih => exact .array ih
  | named h => exact .named (hm.lookup_eq_some h)

theorem isIdentifier_eq (h : d.Links names e) : e.isIdentifier = d.isIdentifier := by
  cases h <;> rfl

theorem wrap (h : d.Links names e) (nullable : Bool) (t : TypeRef) :
    (t.wrap d nullable).Links names (t.wrap e nullable) := by
  induction t generalizing nullable with
  | named n =>
    cases nullable
    · exact h
    · exact .maybeNull h
  | list item ih =>
    cases nullable
    · exact .array (ih true)
    · exact .maybeNull (.array (ih true))
  | nonNull inner ih => exact ih false

end Descriptor.Links

theorem builtin?_links {name : String} {d : Descriptor} (h : builtin? name = some d) :
    d.Links names d := by
  unfold builtin? at h
  split at h <;> first | (rw [← Option.some.inj h]; exact .basic _) | simp at h

namespace Field

theorem links_resolve? {f : Field} {named : String → DeclarationKind → Option Descriptor}
    {asked : Option Descriptor}
    (h : ∀ name kind, f.request? = some (name, kind) →
      Option.Rel (Descriptor.Links names) (named name kind) asked) :
    Option.Rel (Descriptor.Links names) (f.resolve? named) (f.resolve? fun _ _ => asked) := by
  have hbase : Option.Rel (Descriptor.Links names) (f.base? named) (f.base? fun _ _ => asked) := by
    unfold base?
    split
    · cases hb : builtin? f.typeName with
      | none => exact .none
      | some d => exact .some (builtin?_links hb)
    · cases hb : builtin? f.typeName with
      | none => exact .none
      | some d => exact .some (builtin?_links hb)
    · cases hr : f.request? with
      | none => exact .none
      | some r => exact h r.1 r.2 hr
  unfold resolve?
  generalize f.base? named = b, f.base? (fun _ _ => asked) = b' at hbase
  cases hbase with
  | none => exact .none
  | some hl => exact .some (hl.wrap true f.type)

end Field

namespace Composition

/-- The same claim, and properties that differ by the links. -/
structure Links (names : Entries String) (c a : Composition) : Prop where
  claim : a.claim = c.claim
  properties : Entries.Related (Descriptor.Links names) c.properties a.properties

variable {c a : Composition}

theorem Links.mono (h : c.Links names a) (hm : names <+: more) : c.Links more a :=
  ⟨h.claim, h.properties.imp fun _ _ hl => hl.mono hm⟩

theorem Links.put (h : c.Links names a) (key : String) {d e : Descriptor} (hd : d.Links names e) :
    Links names { c with properties := c.properties.put key d }
      { a with properties := a.properties.put key e } :=
  ⟨h.claim, h.properties.put key hd⟩

theorem links_plainIdentifier (f : Field) : f.plainIdentifier.Links names f.plainIdentifier := by
  unfold Field.plainIdentifier
  split
  · exact .basic _
  · exact .maybeNull (.basic _)

theorem Links.add (h : c.Links names a) (f : Field) {r q : Option Descriptor}
    (hr : Option.Rel (Descriptor.Links names) r q) : (c.add f r).Links names (a.add f q) := by
  unfold Composition.add
  split
  · have hd : (c.claim.describe f).1.Links names (c.claim.describe f).1 := by
      unfold Claim.describe
      split
      · exact .basic _
      · exact links_plainIdentifier f
    rw [h.claim]
    exact ⟨rfl, h.properties.put f.name hd⟩
  · cases hr with
    | none => exact h
    | some hd => exact h.put f.name hd

theorem add_of_candidate {f : Field} (hf : f.isIdentifierCandidate = true) (c : Composition)
    (r q : Option Descriptor) : c.add f r = c.add f q := by
  simp [add, hf]

end Composition

theorem identifierKeys_eq_of_related {ps qs : Entries Descriptor}
    (h : Entries.Related (Descriptor.Links names) ps qs) :
    Model.identifierKeys qs = Model.identifierKeys ps := by
  unfold Model.identifierKeys
  induction h with
  | nil => rfl
  | @cons p q _ _ hd _ ih =>
    obtain ⟨hk, hl⟩ := hd
    simp only [List.filter_cons, hl.isIdentifier_eq]
    split
    · simp [hk, ih]
    · exact ih

theorem Definition.Links.mono {d e : Definition} (h : d.Links names e) (hm : names <+: more) :
    d.Links more e := by
  cases h with
  | basic b => exact .basic b
  | enumeration e => exact .enumeration e
  | model h => exact .model (h.imp fun _ _ hl => hl.mono hm)
  | union h => exact .union (h.imp fun _ _ hl => hl.mono hm)

namespace Workshop

variable {w : Workshop}

/-- Where no key is registered twice, a key leads back to its name. -/
theorem nameOf_of_lookup (distinct : (w.names.map Prod.snd).Nodup) {name key : String}
    (h : w.names.lookup name = some key) : w.nameOf key = name := by
  unfold nameOf
  have hmem := Entries.mem_of_lookup h
  generalize w.names = names at distinct hmem
  induction names with
  | nil => simp at hmem
  | cons e rest ih =>
    simp only [List.map_cons, List.nodup_cons] at distinct
    rcases List.mem_cons.mp hmem with rfl | htail
    · simp
    · have hne : e.2 ≠ key := by
        rintro rfl
        exact distinct.1 (List.mem_map.mpr ⟨_, htail, rfl⟩)
      simpa [hne] using ih distinct.2 htail

theorem rename_of_links (distinct : (w.names.map Prod.snd).Nodup) {d e : Descriptor}
    (h : d.Links w.names e) : e.rename w.nameOf = d := by
  induction h with
  | basic b => rfl
  | maybeNull _ ih => simp [Descriptor.rename, ih]
  | array _ ih => simp [Descriptor.rename, ih]
  | named h => simp [Descriptor.rename, nameOf_of_lookup distinct h]

/-- Names in the place of keys give back what the keys were linked from. -/
theorem rename_definition_of_links (distinct : (w.names.map Prod.snd).Nodup) {d e : Definition}
    (h : d.Links w.names e) : e.rename w.nameOf = d := by
  cases h with
  | basic b => rfl
  | enumeration e => rfl
  | @model name ps qs isSealed h =>
    have : qs.map (fun p => (p.1, p.2.rename w.nameOf)) = ps := by
      induction h with
      | nil => rfl
      | cons hd _ ih => simp [ih, ← hd.1, rename_of_links distinct hd.2]
    simp [Definition.rename, this]
  | @union name ds es isSealed h =>
    have : es.map (Descriptor.rename w.nameOf) = ds := by
      induction h with
      | nil => rfl
      | cons hd _ ih => simp [ih, rename_of_links distinct hd]
    simp [Definition.rename, this]

end Workshop

end CheckedModels
