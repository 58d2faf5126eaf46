import CheckedModels.Proofs.Compile.Assembly
import CheckedModels.Proofs.Compile.Supply

/-! The settings of one type decide the identifier of its own model and nothing else. -/
namespace CheckedModels

/-- The settings of all types but this one are the same. -/
def Config.AgreesExcept (name : String) (a b : Config) : Prop :=
  ∀ other, other ≠ name → a.forType? other = b.forType? other

theorem Config.AgreesExcept.choice_eq {name : String} {a b : Config} (h : a.AgreesExcept name b)
    {other : String} (hne : other ≠ name) : a.choice other = b.choice other := by
  unfold choice
  rw [h other hne]

/-- Two descriptors of one field, which may be the identifier: it is in one of the two models and in
the other it is plain text. -/
inductive Field.Redecided (f : Field) : Descriptor → Descriptor → Prop where
  | given (h : f.isIdentifierCandidate = true) : Redecided f f.plainIdentifier .identifier
  | taken (h : f.isIdentifierCandidate = true) : Redecided f .identifier f.plainIdentifier

namespace Scope

/-- The same keys in the same order, with the same descriptors but for fields that may be the
identifier. -/
structure SameButIdentifier (s : Scope) (d : Declaration) (ps qs : Entries Descriptor) : Prop where
  keys : ps.keys = qs.keys
  lookup : ∀ key, ps.lookup key = qs.lookup key ∨ ∃ f p q, (s.composedFields d).lookup key = some f ∧
    ps.lookup key = some p ∧ qs.lookup key = some q ∧ f.Redecided p q

variable {s : Scope}

private abbrev Aligned : Entries Descriptor → Entries Descriptor → Prop :=
  Entries.Related fun _ _ => True

theorem aligned_addField {c a : Composition} (h : Aligned c.properties a.properties) (f : Field) :
    Aligned (s.addField c f).properties (s.addField a f).properties := by
  unfold addField Composition.add
  split
  · exact h.put f.name trivial
  · split
    · exact h.put f.name trivial
    · exact h

theorem aligned_ownProperties (s : Scope) (a b : IdentifierChoice) (fields : List Field) :
    Aligned (s.ownProperties a fields).properties (s.ownProperties b fields).properties := by
  unfold ownProperties
  have hfold : ∀ c c' : Composition, Aligned c.properties c'.properties →
      Aligned (fields.foldl s.addField c).properties (fields.foldl s.addField c').properties := by
    induction fields with
    | nil => exact fun _ _ h => h
    | cons f rest ih => exact fun c c' h => ih _ _ (aligned_addField h f)
  exact hfold _ _ .nil

theorem aligned_addInherited {own made : Entries Descriptor} (hown : Aligned own made)
    {c a : Composition} (h : Aligned c.properties a.properties) (f : Field) :
    Aligned (s.addInherited own c f).properties (s.addInherited made a f).properties := by
  unfold addInherited
  have hlookup := hown.lookup f.name
  generalize own.lookup f.name = x, made.lookup f.name = y at hlookup
  cases hlookup with
  | none => exact aligned_addField h f
  | some => exact h.put f.name trivial

theorem aligned_addInterface {own made : Entries Descriptor} (hown : Aligned own made)
    {c a : Composition} (h : Aligned c.properties a.properties) (name : String) :
    Aligned (s.addInterface own c name).properties (s.addInterface made a name).properties := by
  unfold addInterface
  split
  · generalize s.mergedFields name = fields
    induction fields generalizing c a with
    | nil => exact h
    | cons f rest ih => exact ih (aligned_addInherited hown h f.2)
  · exact h

/-- The choice of the identifier moves no property. -/
theorem aligned_compose (s : Scope) (a b : IdentifierChoice) (d : Declaration) :
    Aligned (s.compose a d) (s.compose b d) := by
  have hown := s.aligned_ownProperties a b d.fields
  have hfold : ∀ (names : List String) (c c' : Composition), Aligned c.properties c'.properties →
      Aligned (names.foldl (s.addInterface (s.ownProperties a d.fields).properties) c).properties
        (names.foldl (s.addInterface (s.ownProperties b d.fields).properties) c').properties := by
    intro names
    induction names with
    | nil => exact fun _ _ h => h
    | cons name rest ih => exact fun c c' h => ih _ _ (aligned_addInterface hown h name)
  exact (hfold d.interfaces ⟨_, []⟩ ⟨_, []⟩ .nil).putAll hown

/-- Two descriptors of one field are the same, or the field may be the identifier. -/
theorem Describes.eq_or_redecided {f : Field} {p q : Descriptor} (hp : s.Describes f p)
    (hq : s.Describes f q) : p = q ∨ f.Redecided p q := by
  cases hp with
  | identifier hf =>
    cases hq with
    | identifier _ => exact .inl rfl
    | plain _ => exact .inr (.taken hf)
    | resolved hn _ => simp [hf] at hn
  | plain hf =>
    cases hq with
    | identifier _ => exact .inr (.given hf)
    | plain _ => exact .inl rfl
    | resolved hn _ => simp [hf] at hn
  | resolved hn hr =>
    cases hq with
    | identifier hf | plain hf => simp [hf] at hn
    | resolved _ hr' => exact .inl (Option.some.inj (hr.symm.trans hr'))

/-- Two choices of the identifier compose the same model but for the fields that may be it. -/
theorem sameButIdentifier_compose (s : Scope) (a b : IdentifierChoice) (d : Declaration) :
    s.SameButIdentifier d (s.compose a d) (s.compose b d) where
  keys := (s.aligned_compose a b d).keys_eq
  lookup key := by
    have hp := s.supplies_compose a d key List.not_mem_nil
    have hq := s.supplies_compose b d key List.not_mem_nil
    generalize (s.composedFields d).lookup key = field,
      (s.compose a d).lookup key = p, (s.compose b d).lookup key = q at hp hq
    cases hp with
    | none =>
      cases hq
      exact .inl rfl
    | some hdescribes =>
      cases hq with
      | some hdescribes' =>
        rcases hdescribes.eq_or_redecided hdescribes' with rfl | hredecided
        · exact .inl rfl
        · exact .inr ⟨_, _, _, rfl, rfl, rfl, hredecided⟩

end Scope

namespace Declarations

/-- Settings that differ for one name at most compile to the same names in the same order, with the same
definitions but under that name, and there too if it is no model. A model keeps its properties but for
fields that may be the identifier. -/
theorem compile_local {name : String} {a b : Config} (agree : a.AgreesExcept name b)
    (ds : Declarations) :
    let s : Scope := { declarations := ds.resolveKinds }
    ∃ c c', ds.compile a = .ok c ∧ ds.compile b = .ok c' ∧ c.registry.keys = c'.registry.keys ∧
      (∀ other, other ≠ name → c.registry.find? other = c'.registry.find? other) ∧
      (c.registry.find? name = c'.registry.find? name ∨ ∃ d ps qs,
        s.declarations.findKind? d.kind name = some d ∧
        c.registry.find? name = some (.model ⟨name, ps, true⟩) ∧
        c'.registry.find? name = some (.model ⟨name, qs, true⟩) ∧ s.SameButIdentifier d ps qs) := by
  intro s
  let v := Survey.ofRoots s
  have hsound : v.Sound s := by
    obtain ⟨w, -, htracks⟩ := ds.resolveKinds.assemble_tracks {}
    exact htracks.sound
  have hfind : ∀ (config : Config) (other : String),
      Registry.find? ⟨v.reached.map fun e => (e.1, v.content s config e.2)⟩ other =
        (v.reached.lookup other).map (v.content s config) :=
    fun config other => Entries.lookup_map v.reached (v.content s config) other
  refine ⟨_, _, compile_eq ds a, compile_eq ds b, ?_, ?_, ?_⟩
  · rw [Survey.keys_map, Survey.keys_map]
  · intro other hne
    rw [hfind, hfind]
    cases hl : v.reached.lookup other with
    | none => rfl
    | some d =>
      have hname : d.name = other := hsound.name_eq (Entries.mem_of_lookup hl)
      have hchoice : a.choice d.name = b.choice d.name := agree.choice_eq (hname ▸ hne)
      rw [Option.map_some, Option.map_some, Survey.content_congr hchoice]
  · rw [hfind, hfind]
    cases hl : v.reached.lookup name with
    | none => exact .inl rfl
    | some d =>
      have hmem := Entries.mem_of_lookup hl
      obtain rfl : d.name = name := hsound.name_eq hmem
      cases hm : d.isModel with
      | false =>
        left
        cases d with
        | object | interface | input => cases hm
        | union | enum | scalar => rfl
      | true =>
        right
        rw [Option.map_some, Option.map_some, Survey.content_of_isModel hm,
          Survey.content_of_isModel hm]
        exact ⟨d, _, _, hsound.found _ hmem, rfl, rfl,
          s.sameButIdentifier_compose (a.choice d.name) (b.choice d.name) d⟩

/-- An object that takes its identifier from an interface, or has a field of its own chosen for it. -/
theorem compile_local_node :
    let ds : Declarations :=
      { objects := [⟨"User", [⟨"email", .named "ID", .unknown⟩], ["Node"]⟩]
        interfaces := [⟨"Node", [⟨"id", .nonNull (.named "ID"), .unknown⟩], []⟩] }
    let s : Scope := { declarations := ds.resolveKinds }
    let a : Config := { types := [("User", { identifier := .field "id" })] }
    let b : Config := { types := [("User", { identifier := .field "email" })] }
    a.AgreesExcept "User" b ∧
    ∃ c c', ds.compile a = .ok c ∧ ds.compile b = .ok c' ∧ c.registry.keys = c'.registry.keys ∧
      (∀ other, other ≠ "User" → c.registry.find? other = c'.registry.find? other) ∧
      (c.registry.find? "User" = c'.registry.find? "User" ∨ ∃ d ps qs,
        s.declarations.findKind? d.kind "User" = some d ∧
        c.registry.find? "User" = some (.model ⟨"User", ps, true⟩) ∧
        c'.registry.find? "User" = some (.model ⟨"User", qs, true⟩) ∧ s.SameButIdentifier d ps qs) := by
  intro ds s a b
  have hagrees : a.AgreesExcept "User" b := by
    intro other hne
    have hkey : (Text.whole other == Text.whole "User") = false := by simpa using hne
    simp [Config.forType?, a, b, List.lookup_cons, hkey]
  exact ⟨hagrees, compile_local hagrees ds⟩

end Declarations

end CheckedModels
