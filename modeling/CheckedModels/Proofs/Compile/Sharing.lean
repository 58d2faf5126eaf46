import CheckedModels.Proofs.Compile.Assembly
import CheckedModels.Proofs.Compile.Supply
import CheckedModels.Proofs.Conversion.Validate
import Mathlib.Logic.Relation

/-! References between compiled definitions: each is to the one definition that is registered under the
name of the type, and that one is finished. -/
namespace CheckedModels

namespace Workshop

def hasModel (w : Workshop) (name : String) : Bool :=
  ((w.names.lookup name).bind w.made.model?).isSome

/-- The definition is sealed and has all that the declaration asks for. What a property refers to is
registered under the type name of its field, and an alternative under the name of the member. -/
inductive Stands (s : Scope) (config : Config) (w : Workshop) : Declaration → Definition → Prop where
  | model {d : Declaration} {m : Model} (hd : d.isModel = true) (name : m.name = d.name)
    (isSealed : m.isSealed = true)
    (filled : Entries.Related (Descriptor.Links w.names) (s.compose (config.choice d.name) d)
      m.properties)
    (shared : ∀ p ∈ m.properties, ∃ f, (p.1, f) ∈ s.composedFields d ∧
      ∀ key, p.2.core = .named key → w.names.lookup f.typeName = some key) :
    Stands s config w d (.model m)
  | union {u : UnionDeclaration} {made : Union} (name : made.declaredName = some u.name)
    (isSealed : made.isSealed = true)
    (shared : List.Forall₂ (fun m d => ∃ key, d = .named key ∧ w.names.lookup m = some key)
      (u.members.filter fun m => (s.declarations.findKind? .object m).isSome && w.hasModel m)
      made.alternatives) :
    Stands s config w (.union u) (.union made)
  | enum (e : EnumDeclaration) : Stands s config w (.enum e) (.enumeration ⟨e.name, e.values⟩)
  | scalar (e : ScalarDeclaration) : Stands s config w (.scalar e) (.basic .frozen)

/-- Under null and array layers there is a scalar that is built in, or the definition that is
registered for a declaration. -/
inductive Settled (s : Scope) (config : Config) (w : Workshop) (d : Descriptor) : Prop where
  | basic {b : Basic} (h : d.core = .basic b) (hb : b ≠ .frozen)
  | named {key name : String} {declared : Declaration} {made : Definition} (h : d.core = .named key)
    (hkey : w.names.lookup name = some key)
    (hd : s.declarations.findKind? declared.kind name = some declared)
    (hmade : w.made.find? key = some made) (stands : Stands s config w declared made)

end Workshop

/-- What is under the layers is the same, or a name and the key that is registered under it. -/
theorem Descriptor.Links.core_cases {names : Entries String} {d e : Descriptor}
    (h : d.Links names e) : (∃ b, d.core = .basic b ∧ e.core = .basic b) ∨
      ∃ name key, d.core = .named name ∧ e.core = .named key ∧ names.lookup name = some key := by
  induction h with
  | basic b => exact .inl ⟨b, rfl, rfl⟩
  | maybeNull _ ih => exact ih
  | array _ ih => exact ih
  | named h => exact .inr ⟨_, _, rfl, rfl, h⟩

theorem TypeRef.core_wrap (t : TypeRef) (base : Descriptor) (nullable : Bool) :
    (t.wrap base nullable).core = base.core := by
  induction t generalizing nullable with
  | named n => cases nullable <;> rfl
  | list item ih => cases nullable <;> exact ih true
  | nonNull inner ih => exact ih false

namespace Scope

variable {s : Scope}

theorem core_resolve? {f : Field} {d : Descriptor} (h : s.resolve? f = some d) :
    (∃ b, d.core = .basic b ∧ b ≠ .frozen) ∨ d.core = .named f.typeName := by
  obtain ⟨base, hbase, rfl⟩ := Option.map_eq_some_iff.mp h
  rw [TypeRef.core_wrap]
  have hbuiltin : ∀ {d}, builtin? f.typeName = some d → ∃ b, d.core = .basic b ∧ b ≠ .frozen := by
    intro d hd
    unfold builtin? at hd
    split at hd <;> simp_all <;> subst hd <;> simp [Descriptor.core]
  unfold Field.base? at hbase
  split at hbase
  · exact .inl (hbuiltin hbase)
  · exact .inl (hbuiltin hbase)
  · obtain ⟨⟨name, kind⟩, hrequest, hnamed⟩ := Option.bind_eq_some_iff.mp hbase
    obtain ⟨k, -, hk⟩ := Option.map_eq_some_iff.mp hrequest
    obtain ⟨rfl, rfl⟩ := Prod.mk.inj hk
    obtain ⟨-, rfl⟩ : _ ∧ Descriptor.named f.typeName = base := by simpa [named?] using hnamed
    exact .inr rfl

theorem Describes.core {f : Field} {d : Descriptor} (h : s.Describes f d) :
    (∃ b, d.core = .basic b ∧ b ≠ .frozen) ∨ d.core = .named f.typeName := by
  cases h with
  | identifier _ => exact .inl ⟨.identifier, rfl, by simp⟩
  | plain _ =>
    refine .inl ⟨.string, ?_, by simp⟩
    unfold Field.plainIdentifier
    split <;> rfl
  | resolved _ hr => exact core_resolve? hr

theorem exists_field_of_mem_compose {choice : IdentifierChoice} {d : Declaration}
    {p : String × Descriptor} (h : p ∈ s.compose choice d) :
    ∃ f, (p.1, f) ∈ s.composedFields d ∧ s.Describes f p.2 := by
  have hlookup := Entries.lookup_of_mem (s.nodup_keys_compose choice d) h
  have hsupply := s.supplies_compose choice d p.1 List.not_mem_nil
  rw [hlookup] at hsupply
  generalize hf : (s.composedFields d).lookup p.1 = found at hsupply
  cases hsupply with
  | some hd => exact ⟨_, Entries.mem_of_lookup hf, hd⟩

end Scope

namespace Workshop

variable {s : Scope} {config : Config} {w : Workshop} {v : Survey}

namespace Tracks

theorem hasModel_eq (h : w.Tracks s config [] v) (name : String) : w.hasModel name = v.hasModel name := by
  unfold hasModel
  cases hl : w.names.lookup name with
  | some key => exact h.isSome_model? hl
  | none =>
    cases hm : v.hasModel name with
    | false => rfl
    | true =>
      have := (h.lookup_isSome name).mpr (Survey.mem_names_of_hasModel hm)
      simp [hl] at this

/-- Every property goes back to a field, whose type name it refers to. -/
theorem exists_field_of_related {choice : IdentifierChoice} {d : Declaration} {ps : Entries Descriptor}
    (h : Entries.Related (Descriptor.Links w.names) (s.compose choice d) ps) {p : String × Descriptor}
    (hp : p ∈ ps) : ∃ f, (p.1, f) ∈ s.composedFields d ∧ ((∃ b, p.2.core = .basic b ∧ b ≠ .frozen) ∨
      ∃ key, p.2.core = .named key ∧ w.names.lookup f.typeName = some key) := by
  obtain ⟨q, hq, hname, hlinks⟩ := h.exists_of_mem hp
  obtain ⟨f, hf, hdescribes⟩ := s.exists_field_of_mem_compose hq
  refine ⟨f, hname ▸ hf, ?_⟩
  rcases hlinks.core_cases with ⟨b, hqb, hpb⟩ | ⟨name, key, hqn, hpk, hkey⟩
  · rcases hdescribes.core with ⟨b', hb', hne⟩ | hn
    · obtain rfl : b = b' := by simpa [hqb] using hb'
      exact .inl ⟨b, hpb, hne⟩
    · simp [hqb] at hn
  · rcases hdescribes.core with ⟨b', hb', -⟩ | hn
    · simp [hqn] at hb'
    · obtain rfl : name = f.typeName := by simpa [hqn] using hn
      exact .inr ⟨key, hpk, hkey⟩

theorem stands (h : w.Tracks s config [] v) {d : Declaration} {made : Definition}
    (hfin : v.Finished s config w.names d made) : Stands s config w d made := by
  have hlinks := hfin.links
  cases d with
  | enum e => cases hlinks; exact .enum e
  | scalar e => cases hlinks; exact .scalar e
  | union u =>
    cases hlinks with
    | union hds =>
      refine .union rfl rfl ?_
      have hmembers : (u.members.filter fun m =>
          (s.declarations.findKind? .object m).isSome && w.hasModel m) =
          u.members.filter fun m => (s.declarations.findKind? .object m).isSome && v.hasModel m :=
        List.filter_congr fun m _ => by rw [h.hasModel_eq]
      have hnames : List.Forall₂ (fun m d => Descriptor.Links w.names (.named m) d) _ _ :=
        List.forall₂_map_left_iff.mp hds
      rw [hmembers]
      refine hnames.imp fun m d hd => ?_
      cases hd with
      | named hkey => exact ⟨_, rfl, hkey⟩
  | object d | interface d | input d =>
    cases hlinks with
    | model hps =>
      refine .model rfl rfl rfl hps fun p hp => ?_
      obtain ⟨f, hf, hcore⟩ := exists_field_of_related hps hp
      refine ⟨f, hf, fun key hkey => ?_⟩
      rcases hcore with ⟨b, hb, -⟩ | ⟨other, hother, hlookup⟩
      · simp [hb] at hkey
      · obtain rfl : other = key := by simpa [hother] using hkey
        exact hlookup

theorem settled_of_lookup (h : w.Tracks s config [] v) {name key : String}
    (hkey : w.names.lookup name = some key) {d : Descriptor} (hd : d.core = .named key) :
    Settled s config w d := by
  obtain ⟨declared, made, hmem, hmade, hfin⟩ := h.exists_of_lookup hkey
  exact .named hd hkey (h.sound.found _ hmem) hmade (h.stands hfin)

/-- Nothing leads out of what is registered. -/
theorem settled_of_part (h : w.Tracks s config [] v) {d e : Descriptor} (hd : Settled s config w d)
    (hpart : w.made.Part d e) : Settled s config w e := by
  cases hd with
  | basic hcore hb =>
    cases hpart with
    | maybeNull | array => exact .basic hcore hb
    | map | property | alternative => cases hcore
  | @named key name declared made hcore hkey hd hmade stands =>
    cases hpart with
    | maybeNull | array => exact .named hcore hkey hd hmade stands
    | map => cases hcore
    | property hfind hp =>
      cases hcore
      obtain rfl := Option.some.inj (hfind.symm.trans hmade)
      cases stands with
      | model _ _ _ filled _ =>
        obtain ⟨f, -, ⟨b, hb, hne⟩ | ⟨other, hother, hlookup⟩⟩ := exists_field_of_related filled hp
        · exact .basic hb hne
        · exact h.settled_of_lookup hlookup hother
    | alternative hfind ha =>
      cases hcore
      obtain rfl := Option.some.inj (hfind.symm.trans hmade)
      cases stands with
      | union _ _ shared =>
        obtain ⟨m, -, other, rfl, hlookup⟩ := Entries.exists_rel_of_mem shared ha
        exact h.settled_of_lookup hlookup rfl

/-- Everything that can be reached from a registered definition is finished and registered. -/
theorem settled_of_reachable (h : w.Tracks s config [] v) {name key : String}
    (hkey : w.names.lookup name = some key) {d : Descriptor}
    (hd : Relation.ReflTransGen w.made.Part (.named key) d) : Settled s config w d := by
  induction hd with
  | refl => exact h.settled_of_lookup hkey rfl
  | tail _ hpart ih => exact h.settled_of_part ih hpart

theorem allSealed_published (h : w.Tracks s config [] v) : w.published.AllSealed := by
  intro key m hm
  rw [h.published_eq] at hm
  obtain ⟨e, -, he⟩ := List.mem_map.mp (Entries.mem_of_lookup hm)
  obtain ⟨-, hcontent⟩ := Prod.mk.inj he
  generalize e.2 = d at hcontent
  cases d with
  | object | interface | input =>
    obtain rfl := Definition.model.inj hcontent
    rfl
  | union | enum | scalar => cases hcontent

end Tracks

end Workshop

namespace Declarations

/-- After a compilation nothing is left unfinished or made twice: whatever can be reached from a name is
the one definition that is registered under the type name that refers to it. No value then meets a model
that is still being compiled. -/
theorem compile_shares (ds : Declarations) (config : Config) :
    ∃ w, (ds.resolveKinds.assemble config).run {} = .ok ((), w) ∧
      ds.compile config = .ok ⟨w.published, w.notes ++ [.compiled w.names.length]⟩ ∧
      (∀ name key d, w.names.lookup name = some key →
        Relation.ReflTransGen w.made.Part (.named key) d →
        w.Settled { declarations := ds.resolveKinds } config d) ∧
      ∀ name ∈ w.published.keys, ∀ v model,
        w.published.isValid (.named name) v ≠ .error (.unsealed model) ∧
        w.published.create (.named name) v ≠ .error (.fault (.unsealed model)) := by
  obtain ⟨w, hrun, htracks⟩ := ds.resolveKinds.assemble_tracks config
  refine ⟨w, hrun, compile_of_assemble hrun, ?_, ?_⟩
  · intro name key d hkey hd
    exact htracks.settled_of_reachable hkey hd
  · intro name _ v model
    have hsealed := htracks.allSealed_published
    exact ⟨Registry.isValid_ne_unsealed hsealed _ v model, Registry.create_ne_unsealed hsealed _ v model⟩

end Declarations

end CheckedModels
