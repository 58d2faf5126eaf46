import CheckedModels.Proofs.Compile.Composition
import CheckedModels.Proofs.Compile.Lineage

/-! Which field supplies each property of a model: the last of its name among those that are kept, with
the model's own fields after the fields of its interfaces. -/
namespace CheckedModels

namespace Scope

/-- What a field that is kept may stand for. -/
inductive Describes (s : Scope) (f : Field) : Descriptor → Prop where
  | identifier (h : f.isIdentifierCandidate = true) : Describes s f .identifier
  | plain (h : f.isIdentifierCandidate = true) : Describes s f f.plainIdentifier
  | resolved {d : Descriptor} (h : f.isIdentifierCandidate = false) (hr : s.resolve? f = some d) :
    Describes s f d

/-- The fields of the interfaces that a declaration lists, and then its own. -/
def listedFields (s : Scope) (d : Declaration) : Entries Field :=
  d.interfaces.flatMap s.mergedFields ++ d.fields.map fun f => (f.name, f)

/-- The field behind each property. -/
def composedFields (s : Scope) (d : Declaration) : Entries Field :=
  Entries.ofPairs ((s.listedFields d).filter fun e => s.keeps e.2)

/-- Every property but the exceptions is what the field under its key stands for. -/
def Supplies (s : Scope) (except : List String) (fields : Entries Field) (ps : Entries Descriptor) :
    Prop :=
  ∀ key, key ∉ except → Option.Rel s.Describes (fields.lookup key) (ps.lookup key)

variable {s : Scope} {except : List String} {fields : Entries Field}

namespace Supplies

variable {ps : Entries Descriptor}

theorem put (h : s.Supplies except fields ps) {f : Field} {d : Descriptor} (hd : s.Describes f d)
    (key : String) : s.Supplies except (fields.put key f) (ps.put key d) := by
  intro other hother
  rw [Entries.lookup_put, Entries.lookup_put]
  split
  · exact .some hd
  · exact h other hother

/-- Under an exception the two sides may differ. -/
theorem put_except (h : s.Supplies except fields ps) {key : String} (hkey : key ∈ except)
    (news : Entries Field) (hnews : ∀ e ∈ news, e.1 = key) (d : Descriptor) :
    s.Supplies except (fields.putAll news) (ps.put key d) := by
  intro other hother
  have hne : other ≠ key := fun heq => hother (heq ▸ hkey)
  have hnone : news.reverse.lookup other = none := by
    rw [Entries.lookup_eq_none_iff]
    intro hmem
    obtain ⟨e, he, rfl⟩ := List.mem_map.mp hmem
    exact hne (hnews e (List.mem_reverse.mp he))
  rw [Entries.lookup_putAll, hnone, Option.none_or, Entries.lookup_put_of_ne _ _ hne]
  exact h other hother

end Supplies

/-- The field on its own, under its name, if it is kept. -/
private def kept (s : Scope) (f : Field) : Entries Field :=
  [(f.name, f)].filter fun e => s.keeps e.2

theorem supplies_addField {c : Composition} (h : s.Supplies except fields c.properties) (f : Field) :
    s.Supplies except (fields.putAll (s.kept f)) (s.addField c f).properties := by
  unfold kept addField Composition.add keeps
  cases hf : f.isIdentifierCandidate with
  | true =>
    have hd : s.Describes f (c.claim.describe f).1 := by
      rw [Claim.describe_eq]
      dsimp only
      split
      · exact .identifier hf
      · exact .plain hf
    simpa [hf, Entries.putAll] using h.put hd f.name
  | false =>
    cases hr : s.resolve? f with
    | none => simpa [hf, hr, Entries.putAll] using h
    | some d => simpa [hf, hr, Entries.putAll] using h.put (.resolved hf hr) f.name

theorem supplies_addInherited {own : Entries Descriptor} {c : Composition}
    (h : s.Supplies own.keys fields c.properties) (f : Field) :
    s.Supplies own.keys (fields.putAll (s.kept f)) (s.addInherited own c f).properties := by
  unfold addInherited
  cases hl : own.lookup f.name with
  | none => exact s.supplies_addField h f
  | some d =>
    refine h.put_except (Entries.mem_keys_of_mem (Entries.mem_of_lookup hl)) _ ?_ d
    intro e he
    obtain rfl : e = (f.name, f) := List.mem_singleton.mp (List.mem_filter.mp he).1
    rfl

/-- The fields that are added one after the other, each under its name if it is kept. -/
private theorem supplies_foldl {add : Composition → Field → Composition}
    (hadd : ∀ {fields : Entries Field} {c : Composition}, s.Supplies except fields c.properties →
      ∀ f, s.Supplies except (fields.putAll (s.kept f)) (add c f).properties)
    {news : Entries Field} (hnews : ∀ e ∈ news, e.1 = e.2.name) {c : Composition}
    (h : s.Supplies except fields c.properties) :
    s.Supplies except (fields.putAll (news.filter fun e => s.keeps e.2))
      (news.foldl (fun c e => add c e.2) c).properties := by
  induction news generalizing fields c with
  | nil => exact h
  | cons e rest ih =>
    have hhead : [e].filter (fun e => s.keeps e.2) = s.kept e.2 := by
      rw [kept, ← hnews e List.mem_cons_self]
    rw [← List.singleton_append, List.filter_append, Entries.putAll_append, hhead,
      List.singleton_append, List.foldl_cons]
    exact ih (fun a ha => hnews a (List.mem_cons_of_mem _ ha)) (hadd h e.2)

theorem supplies_addInterface {own : Entries Descriptor} {c : Composition}
    (h : s.Supplies own.keys fields c.properties) (name : String) :
    s.Supplies own.keys (fields.putAll ((s.mergedFields name).filter fun e => s.keeps e.2))
      (s.addInterface own c name).properties := by
  unfold addInterface
  split
  · exact supplies_foldl (fun h f => s.supplies_addInherited h f)
      (fun _ he => s.name_of_mem_mergedFields he) h
  · next hi =>
    have hnone : s.interface? name = none := by simpa using hi
    rw [mergedFields_of_unknown hnone]
    exact h

theorem supplies_interfaces {own : Entries Descriptor} {c : Composition}
    (h : s.Supplies own.keys fields c.properties) (names : List String) :
    s.Supplies own.keys
      (fields.putAll ((names.flatMap s.mergedFields).filter fun e => s.keeps e.2))
      (names.foldl (s.addInterface own) c).properties := by
  induction names generalizing fields c with
  | nil => exact h
  | cons name rest ih =>
    rw [List.flatMap_cons, List.filter_append, Entries.putAll_append, List.foldl_cons]
    exact ih (s.supplies_addInterface h name)

theorem supplies_ownProperties (s : Scope) (choice : IdentifierChoice) (fields : List Field) :
    s.Supplies [] (Entries.ofPairs ((fields.map fun f => (f.name, f)).filter fun e => s.keeps e.2))
      (s.ownProperties choice fields).properties := by
  have hstart : s.Supplies [] [] [] := fun _ _ => .none
  have hnames : ∀ e ∈ fields.map fun f => (f.name, f), e.1 = e.2.name := by simp
  have hall := supplies_foldl (c := ⟨⟨choice, none⟩, []⟩) (fun h f => s.supplies_addField h f) hnames
    hstart
  rw [List.foldl_map] at hall
  exact hall

/-- Every property of a model is what its field stands for. -/
theorem supplies_compose (s : Scope) (choice : IdentifierChoice) (d : Declaration) :
    s.Supplies [] (s.composedFields d) (s.compose choice d) := by
  let own := s.ownProperties choice d.fields
  have hown := s.supplies_ownProperties choice d.fields
  have hstart : s.Supplies own.properties.keys [] [] := fun _ _ => .none
  have hinherited := supplies_interfaces (c := ⟨own.claim, []⟩) hstart d.interfaces
  have hdistinct : own.properties.keys.Nodup := (s.sound_ownProperties choice d.fields).distinct
  intro key _
  have hkey := hown key List.not_mem_nil
  rw [Entries.lookup_ofPairs] at hkey
  rw [composedFields, listedFields, List.filter_append, Entries.ofPairs, Entries.putAll_append,
    Entries.lookup_putAll, compose, Entries.lookup_putAll_of_nodup hdistinct]
  cases hl : own.properties.lookup key with
  | none =>
    rw [hl] at hkey
    generalize List.lookup key _ = found at hkey ⊢
    cases hkey
    simpa using hinherited key (Entries.lookup_eq_none_iff.mp hl)
  | some d =>
    rw [hl] at hkey
    generalize List.lookup key _ = found at hkey ⊢
    cases hkey with
    | some hd => exact .some hd

end Scope

end CheckedModels
