import CheckedModels.Proofs.Compile.Inheritance

/-! The fields of an interface gathered call by call. Each call goes through the interfaces that its own one
lists, and all calls share what has been seen. -/
namespace CheckedModels.Scope

/-- What is known while a call goes on: the names that were seen and the interfaces that are done with, by
whichever call, and the fields that this one has gathered. -/
structure Collected where
  seen : List String := []
  visited : List RecordDeclaration := []
  fields : Entries Field := []

namespace Collected

def enter (g : Collected) (i : RecordDeclaration) : Collected := ⟨i.name :: g.seen, g.visited, []⟩

/-- A call ends: the fields of the interface itself win. -/
def leave (g : Collected) (i : RecordDeclaration) : Collected :=
  ⟨g.seen, g.visited ++ [i], g.fields.putAll (declaredFields [i])⟩

/-- The call that another one was made by goes on. -/
def resume (g inner : Collected) : Collected :=
  ⟨inner.seen, inner.visited, g.fields.putAll inner.fields⟩

end Collected

/-- How a call goes through the names that its interface lists. A name that was not seen is a call of its
own. -/
inductive CollectsFrom (s : Scope) : List String → Collected → Collected → Prop where
  | done {g : Collected} : CollectsFrom s [] g g
  | unknown {name : String} {rest : List String} {g h : Collected} (found : s.interface? name = none)
    (next : CollectsFrom s rest g h) : CollectsFrom s (name :: rest) g h
  | seen {name : String} {rest : List String} {g h : Collected} {i : RecordDeclaration}
    (found : s.interface? name = some i) (old : i.name ∈ g.seen) (next : CollectsFrom s rest g h) :
    CollectsFrom s (name :: rest) g h
  | call {name : String} {rest : List String} {g inner h : Collected} {i : RecordDeclaration}
    (found : s.interface? name = some i) (new : i.name ∉ g.seen)
    (listed : CollectsFrom s i.interfaces (g.enter i) inner)
    (next : CollectsFrom s rest (g.resume (inner.leave i)) h) : CollectsFrom s (name :: rest) g h

/-- A call for an interface where nothing has been seen, from its beginning to its end. -/
def Collects (s : Scope) (i : RecordDeclaration) (g : Collected) : Prop :=
  ∃ inner, s.CollectsFrom i.interfaces (Collected.enter {} i) inner ∧ g = inner.leave i

variable {s : Scope} {names : List String} {g h : Collected} {i : RecordDeclaration}

theorem CollectsFrom.unique {other : Collected} (hg : s.CollectsFrom names g h) (ho : s.CollectsFrom names g other) :
    h = other := by
  induction hg generalizing other with
  | done =>
    cases ho
    rfl
  | unknown found _ ih =>
    cases ho with
    | unknown _ next => exact ih next
    | seen found' | call found' => simp [found] at found'
  | seen found old _ ih =>
    cases ho with
    | unknown found' => simp [found] at found'
    | seen _ _ next => exact ih next
    | call found' new =>
      obtain rfl := Option.some.inj (found.symm.trans found')
      exact absurd old new
  | call found new _ _ ihlisted ihnext =>
    cases ho with
    | unknown found' => simp [found] at found'
    | seen found' old =>
      obtain rfl := Option.some.inj (found.symm.trans found')
      exact absurd old new
    | call found' _ listed next =>
      obtain rfl := Option.some.inj (found.symm.trans found')
      obtain rfl := ihlisted listed
      exact ihnext next

/-- The interfaces that are visited on the way from one state to another, in the order in which they are
done with. -/
structure Collected.Visits (g h : Collected) (walked : List RecordDeclaration) : Prop where
  visited : h.visited = g.visited ++ walked
  seen : ∀ name, name ∈ h.seen ↔ name ∈ walked.map RecordDeclaration.name ∨ name ∈ g.seen
  fields : ∀ pairs, g.fields = Entries.ofPairs pairs →
    h.fields = Entries.ofPairs (pairs ++ declaredFields walked)
  distinct : (walked.map RecordDeclaration.name).Nodup
  fresh : ∀ i ∈ walked, i.name ∉ g.seen

namespace Collected.Visits

variable {walked more : List RecordDeclaration} {k inner : Collected}

theorem refl (g : Collected) : g.Visits g [] where
  visited := by simp
  seen := by simp
  fields := by simp [declaredFields]
  distinct := by simp
  fresh := by simp

theorem trans (hw : g.Visits h walked) (hm : h.Visits k more) : g.Visits k (walked ++ more) where
  visited := by rw [hm.visited, hw.visited, List.append_assoc]
  seen name := by
    rw [hm.seen, hw.seen, List.map_append, List.mem_append]
    tauto
  fields pairs hpairs := by
    rw [hm.fields _ (hw.fields pairs hpairs), List.append_assoc, declaredFields, declaredFields,
      declaredFields, List.flatMap_append]
  distinct := by
    rw [List.map_append, List.nodup_append]
    refine ⟨hw.distinct, hm.distinct, fun name hname other hother heq => ?_⟩
    obtain ⟨j, hj, rfl⟩ := List.mem_map.mp hother
    exact hm.fresh j hj ((hw.seen _).mpr (.inl (heq ▸ hname)))
  fresh j hj := by
    rcases List.mem_append.mp hj with hj | hj
    · exact hw.fresh j hj
    · exact fun hold => hm.fresh j hj ((hw.seen _).mpr (.inr hold))

/-- A call has the fields of all that it visits, its own interface last. -/
theorem fields_leave (hw : (g.enter i).Visits inner walked) :
    (inner.leave i).fields = Entries.ofPairs (declaredFields (walked ++ [i])) := by
  have hinner : inner.fields = Entries.ofPairs (declaredFields walked) := hw.fields [] rfl
  rw [leave, hinner, Entries.ofPairs, ← Entries.putAll_append, declaredFields, declaredFields,
    declaredFields, List.flatMap_append]
  rfl

/-- What a call visits, and then its own interface. -/
theorem call (new : i.name ∉ g.seen) (hw : (g.enter i).Visits inner walked) :
    g.Visits (g.resume (inner.leave i)) (walked ++ [i]) where
  visited := by
    simp [resume, leave, enter, hw.visited]
  seen name := by
    have hseen := hw.seen name
    simp only [enter, List.mem_cons] at hseen
    simp only [resume, leave, hseen, List.map_append, List.map_cons, List.map_nil, List.mem_append,
      List.mem_singleton]
    exact or_assoc.symm
  fields pairs hpairs := by
    rw [resume, hpairs, hw.fields_leave, Entries.putAll_ofPairs_ofPairs]
  distinct := by
    rw [List.map_append, List.nodup_append]
    refine ⟨hw.distinct, by simp, fun name hname other hother heq => ?_⟩
    obtain ⟨j, hj, rfl⟩ := List.mem_map.mp hname
    obtain rfl : other = i.name := by simpa using hother
    exact hw.fresh j hj (heq ▸ List.mem_cons_self)
  fresh j hj := by
    rcases List.mem_append.mp hj with hj | hj
    · exact fun hold => hw.fresh j hj (List.mem_cons_of_mem _ hold)
    · obtain rfl : j = i := by simpa using hj
      exact new

end Collected.Visits

theorem CollectsFrom.visits (hg : s.CollectsFrom names g h) :
    g.Visits h (s.lineageFrom (names.map .enter) g.seen) := by
  induction hg with
  | @done g =>
    rw [List.map_nil, lineageFrom_nil]
    exact .refl g
  | unknown found _ ih =>
    rw [List.map_cons, lineageFrom_unknown found]
    exact ih
  | seen found old _ ih =>
    rw [List.map_cons, lineageFrom_seen found old]
    exact ih
  | @call name rest g inner h i found new _ _ ihlisted ihnext =>
    have hcall := Collected.Visits.call new ihlisted
    let listed := s.lineageFrom (i.interfaces.map .enter) (i.name :: g.seen)
    have hwalk : s.lineageFrom (.enter name :: rest.map .enter) g.seen =
        listed ++ [i] ++ s.lineageFrom (rest.map .enter) (g.resume (inner.leave i)).seen := by
      rw [lineageFrom_new found new, lineageFrom_append (by simp), lineageFrom_leave, List.append_assoc]
      -- Both go on with the same names seen, in another order.
      refine congrArg (listed ++ i :: ·) (lineageFrom_congr fun other => ?_)
      rw [List.mem_append]
      exact (ihlisted.seen other).symm
    rw [List.map_cons, hwalk]
    exact hcall.trans ihnext

/-- Every call ends: each one that is made sees a name more. -/
theorem exists_collectsFrom (s : Scope) (names : List String) (g : Collected) : ∃ h, s.CollectsFrom names g h := by
  match names with
  | [] => exact ⟨g, .done⟩
  | name :: rest =>
    cases found : s.interface? name with
    | none =>
      obtain ⟨h, hrest⟩ := exists_collectsFrom s rest g
      exact ⟨h, .unknown found hrest⟩
    | some i =>
      by_cases new : i.name ∈ g.seen
      · obtain ⟨h, hrest⟩ := exists_collectsFrom s rest g
        exact ⟨h, .seen found new hrest⟩
      · obtain ⟨inner, hinner⟩ := exists_collectsFrom s i.interfaces (g.enter i)
        -- The names that follow come nearer to the end too, as what was seen inside is not forgotten.
        have hsub : i.name :: g.seen ⊆ inner.seen := fun other h => (hinner.visits.seen other).mpr (.inr h)
        obtain ⟨h, hrest⟩ := exists_collectsFrom s rest (g.resume (inner.leave i))
        exact ⟨h, .call found new hinner hrest⟩
termination_by (unseen s.declarations.names g.seen, names.length)
decreasing_by
  · exact .right _ (by simp)
  · exact .right _ (by simp)
  · obtain ⟨heq, hmem⟩ := name_of_interface? found
    exact .left _ _ (unseen_lt (fun _ => List.mem_cons_of_mem _) (heq ▸ hmem) new List.mem_cons_self)
  · obtain ⟨heq, hmem⟩ := name_of_interface? found
    exact .left _ _ (unseen_lt (fun _ h => hsub (List.mem_cons_of_mem _ h)) (heq ▸ hmem) new
      (hsub List.mem_cons_self))

theorem exists_collects (s : Scope) (i : RecordDeclaration) : ∃ g, s.Collects i g := by
  obtain ⟨inner, hinner⟩ := exists_collectsFrom s i.interfaces (Collected.enter {} i)
  exact ⟨_, inner, hinner, rfl⟩

namespace Collects

theorem unique {other : Collected} (hg : s.Collects i g) (ho : s.Collects i other) : other = g := by
  obtain ⟨inner, hinner, rfl⟩ := hg
  obtain ⟨inner', hinner', rfl⟩ := ho
  rw [hinner.unique hinner']

variable (found : s.interface? i.name = some i)

include found

/-- Going through the interfaces call by call and walking through them come to the same. -/
theorem visited_eq (hg : s.Collects i g) : g.visited = s.lineage i.name := by
  obtain ⟨inner, hinner, rfl⟩ := hg
  have hcall := Collected.Visits.call (g := {}) List.not_mem_nil hinner.visits
  rw [lineage_eq found]
  exact hcall.visited

theorem fields_eq (hg : s.Collects i g) : g.fields = s.mergedFields i.name := by
  obtain ⟨inner, hinner, rfl⟩ := hg
  rw [hinner.visits.fields_leave, mergedFields, lineage_eq found]
  rfl

omit found

theorem nodup_visited (hg : s.Collects i g) : g.visited.Nodup := by
  obtain ⟨inner, hinner, rfl⟩ := hg
  have hcall := Collected.Visits.call (g := {}) List.not_mem_nil hinner.visits
  have hvisited : (inner.leave i).visited = _ := hcall.visited
  rw [hvisited]
  exact List.Nodup.of_map _ hcall.distinct

end Collects

/-- The last field of its name that an interface declares itself is the one that it has. -/
theorem lookup_mergedFields_last (found : s.interface? i.name = some i) {before after : List Field}
    {f : Field} (hfields : i.fields = before ++ f :: after) (hlast : f.name ∉ after.map Field.name) :
    (s.mergedFields i.name).lookup f.name = some f := by
  have hafter : f.name ∉ Entries.keys (after.map fun f => (f.name, f)) := by
    simpa [Entries.keys, Function.comp_def] using hlast
  rw [mergedFields, lineage_eq found, List.flatMap_append, List.flatMap_singleton, hfields, List.map_append,
    List.map_cons, ← List.append_assoc]
  exact Entries.lookup_ofPairs_of_last hafter

theorem interface?_eq (s : Scope) (name : String) :
    s.interface? name = s.declarations.interfaces.find? fun i => i.name == name := by
  have hfind : s.declarations.findKind? .interface name =
      (s.declarations.interfaces.find? fun i => i.name == name).map .interface := by
    rw [Declarations.findKind?_eq, Declarations.category, List.find?_map]
    rfl
  rw [interface?, hfind]
  cases s.declarations.interfaces.find? fun i => i.name == name <;> rfl

/-- The first interface lists the second one, and the second one is declared. -/
def Inherits (s : Scope) (i j : RecordDeclaration) : Prop :=
  j ∈ s.declarations.interfaces ∧ j.name ∈ i.interfaces

section Distinct

variable (distinct : (s.declarations.interfaces.map RecordDeclaration.name).Nodup)

include distinct

theorem interface?_eq_some_iff {name : String} :
    s.interface? name = some i ↔ i ∈ s.declarations.interfaces ∧ i.name = name := by
  rw [interface?_eq]
  constructor
  · intro h
    exact ⟨List.mem_of_find?_eq_some h, by simpa using List.find?_some h⟩
  · rintro ⟨hi, rfl⟩
    cases hfind : s.declarations.interfaces.find? fun j => j.name == i.name with
    | none => simpa using List.find?_eq_none.mp hfind i hi
    | some j =>
      have hname : j.name = i.name := by simpa using List.find?_some hfind
      rw [List.inj_on_of_nodup_map distinct (List.mem_of_find?_eq_some hfind) hi hname]

theorem extends_eq : s.Extends = s.Inherits := by
  ext i j
  simp only [Extends, Inherits, interface?_eq_some_iff distinct]
  constructor
  · rintro ⟨name, hname, hj, rfl⟩
    exact ⟨hj, hname⟩
  · rintro ⟨hj, hname⟩
    exact ⟨j.name, hname, hj, rfl⟩

theorem mem_lineage_iff_inherits (hi : i ∈ s.declarations.interfaces) {j : RecordDeclaration} :
    j ∈ s.lineage i.name ↔ Relation.ReflTransGen s.Inherits i j := by
  have found : s.interface? i.name = some i := (interface?_eq_some_iff distinct).mpr ⟨hi, rfl⟩
  simp [mem_lineage_iff, found, extends_eq distinct]

/-- However interfaces list each other, the call for one of them ends, and in one way only. It visits the
interface and all that this one inherits from, each of them once, and has a field for every name that one of
them declares: the last one of the interface itself, if it has any of the name. -/
theorem collects_complete (hi : i ∈ s.declarations.interfaces) :
    ∃ g, (∀ h, s.Collects i h ↔ h = g) ∧ g.fields = s.mergedFields i.name ∧
      g.visited.Nodup ∧ (∀ j, j ∈ g.visited ↔ Relation.ReflTransGen s.Inherits i j) ∧
      g.fields.keys.Nodup ∧
      (∀ key, key ∈ g.fields.keys ↔
        ∃ j, Relation.ReflTransGen s.Inherits i j ∧ key ∈ j.fields.map Field.name) ∧
      (∀ before f after, i.fields = before ++ f :: after → f.name ∉ after.map Field.name →
        g.fields.lookup f.name = some f) ∧
      ∀ key ∈ g.fields.keys, ∃ f, g.fields.lookup key = some f ∧ f.name = key ∧
        ∃ j, Relation.ReflTransGen s.Inherits i j ∧ f ∈ j.fields := by
  have found : s.interface? i.name = some i := (interface?_eq_some_iff distinct).mpr ⟨hi, rfl⟩
  obtain ⟨g, hg⟩ := exists_collects s i
  have hfields := hg.fields_eq found
  have hreach : ∀ j, j ∈ s.lineage i.name ↔ Relation.ReflTransGen s.Inherits i j :=
    fun j => mem_lineage_iff_inherits distinct hi
  refine ⟨g, fun h => ⟨hg.unique, fun heq => heq ▸ hg⟩, hfields, hg.nodup_visited, ?_, ?_, ?_, ?_, ?_⟩
  · rw [hg.visited_eq found]
    exact hreach
  · rw [hfields]
    exact Entries.nodup_ofPairs _
  · intro key
    simp only [hfields, mem_keys_mergedFields, hreach]
  · intro before f after hlist hlast
    rw [hfields]
    exact lookup_mergedFields_last found hlist hlast
  · intro key hkey
    rw [hfields] at hkey ⊢
    obtain ⟨f, hf⟩ := Entries.exists_lookup hkey
    have hmem := Entries.mem_of_lookup hf
    obtain ⟨j, hj, hfj⟩ := exists_lineage_of_mem_mergedFields hmem
    exact ⟨f, hf, (s.name_of_mem_mergedFields hmem).symm, j, (hreach j).mp hj, hfj⟩

end Distinct

/-- Interfaces that lead back to each other, one that lists itself, and a name that nothing declares. -/
theorem collects_complete_cyclic :
    let node : RecordDeclaration :=
      ⟨"Node", [⟨"id", .named "ID", .unknown⟩, ⟨"name", .named "Int", .unknown⟩], ["Named"]⟩
    let aged : RecordDeclaration := ⟨"Aged", [⟨"age", .named "Int", .unknown⟩], ["Node", "Aged", "Missing"]⟩
    let named : RecordDeclaration := ⟨"Named", [⟨"name", .named "String", .unknown⟩], ["Node", "Aged"]⟩
    let s : Scope := { declarations := { interfaces := [node, aged, named] } }
    (s.declarations.interfaces.map RecordDeclaration.name).Nodup ∧ named ∈ s.declarations.interfaces ∧
    ∃ g, (∀ h, s.Collects named h ↔ h = g) ∧
      g.fields = [("id", ⟨"id", .named "ID", .unknown⟩), ("name", ⟨"name", .named "String", .unknown⟩),
        ("age", ⟨"age", .named "Int", .unknown⟩)] := by
  intro node aged named s
  have distinct : (s.declarations.interfaces.map RecordDeclaration.name).Nodup := by decide
  have hnamed : named ∈ s.declarations.interfaces := by simp [s]
  obtain ⟨g, hg, hfields, -⟩ := collects_complete distinct hnamed
  have hline : s.lineage "Named" = [node, aged, named] := by cbv
  refine ⟨distinct, hnamed, g, hg, ?_⟩
  rw [hfields, mergedFields, hline]
  rfl

end CheckedModels.Scope
