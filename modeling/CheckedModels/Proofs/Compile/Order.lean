import CheckedModels.Proofs.Compile.Lineage
import CheckedModels.Proofs.Compile.Reached

/-! The order of the declarations within their categories has no part in what is compiled, where no name
is declared twice. -/
namespace CheckedModels

namespace Scope

structure Agrees (s t : Scope) : Prop where
  found : s.declarations.findKind? = t.declarations.findKind?
  follows : s.follows = t.follows

variable {s t : Scope}

namespace Agrees

theorem resolve?_eq (h : s.Agrees t) : s.resolve? = t.resolve? := by
  have hnamed : s.named? = t.named? := by
    funext name kind
    simp only [named?, h.found, h.follows]
  funext f
  rw [resolve?, resolve?, hnamed]

theorem interface?_eq (h : s.Agrees t) : s.interface? = t.interface? := by
  funext name
  simp only [interface?, h.found]

theorem lineageFrom_eq (h : s.Agrees t) (steps : List Walk) (seen : List String) :
    s.lineageFrom steps seen = t.lineageFrom steps seen := by
  induction steps, seen using lineageFrom.induct (s := s) with
  | case1 seen => rw [lineageFrom, lineageFrom]
  | case2 seen d rest ih => rw [lineageFrom, lineageFrom, ih]
  | case3 seen name rest found ih =>
    rw [lineageFrom_unknown found, lineageFrom_unknown (h.interface?_eq ▸ found), ih]
  | case4 seen name rest d found mem ih =>
    rw [lineageFrom_seen found mem, lineageFrom_seen (h.interface?_eq ▸ found) mem, ih]
  | case5 seen name rest d found new ih =>
    rw [lineageFrom_new found new, lineageFrom_new (h.interface?_eq ▸ found) new, ih]

theorem mergedFields_eq (h : s.Agrees t) : s.mergedFields = t.mergedFields := by
  funext name
  rw [mergedFields, mergedFields, lineage, lineage, h.lineageFrom_eq]

theorem compose_eq (h : s.Agrees t) : s.compose = t.compose := by
  have hadd : s.addField = t.addField := by
    funext c f
    rw [addField, addField, h.resolve?_eq]
  have hinherited : s.addInherited = t.addInherited := by
    funext own c f
    rw [addInherited, addInherited, hadd]
  have hinterface : s.addInterface = t.addInterface := by
    funext own c name
    rw [addInterface, addInterface, h.interface?_eq, h.mergedFields_eq, hinherited]
  funext choice d
  simp only [compose, ownProperties, hadd, hinterface]

theorem tasks_eq (h : s.Agrees t) : s.tasks = t.tasks := by
  have hown : s.ownTasks = t.ownTasks := by
    funext f
    rw [ownTasks, ownTasks, fieldTask, fieldTask, h.resolve?_eq]
  have hkeeps : s.keeps = t.keeps := by
    funext f
    rw [keeps, keeps, h.resolve?_eq]
  have hinterface : s.interfaceTasks = t.interfaceTasks := by
    funext d name
    rw [interfaceTasks, interfaceTasks, h.interface?_eq, h.mergedFields_eq, hown, hkeeps]
  have hmember : s.memberTasks = t.memberTasks := by
    funext union name
    rw [memberTasks, memberTasks, h.found]
  funext d
  cases d <;> simp only [tasks, hown, hinterface, hmember]

theorem content_eq (h : s.Agrees t) (config : Config) : s.content config = t.content config := by
  funext d
  cases d <;> simp only [content, h.compose_eq, h.found]

end Agrees

end Scope

namespace Declarations

/-- The same declarations in every category, in any order. -/
structure Permuted (a b : Declarations) : Prop where
  objects : a.objects.Perm b.objects
  inputs : a.inputs.Perm b.inputs
  interfaces : a.interfaces.Perm b.interfaces
  unions : a.unions.Perm b.unions
  enums : a.enums.Perm b.enums
  scalars : a.scalars.Perm b.scalars

variable {a b : Declarations}

namespace Permuted

theorem symm (h : a.Permuted b) : b.Permuted a :=
  ⟨h.objects.symm, h.inputs.symm, h.interfaces.symm, h.unions.symm, h.enums.symm, h.scalars.symm⟩

theorem category (h : a.Permuted b) (k : DeclarationKind) : (a.category k).Perm (b.category k) := by
  cases k with
  | object => exact h.objects.map _
  | input => exact h.inputs.map _
  | interface => exact h.interfaces.map _
  | union => exact h.unions.map _
  | enum => exact h.enums.map _
  | scalar => exact h.scalars.map _

theorem all (h : a.Permuted b) : a.all.Perm b.all := by
  rw [all_eq, all_eq]
  exact (((((h.category _).append (h.category _)).append (h.category _)).append
    (h.category _)).append (h.category _)).append (h.category _)

theorem roots (h : a.Permuted b) : a.roots.Perm b.roots := by
  rw [roots_eq, roots_eq]
  exact (((h.category _).append (h.category _)).append (h.category _)).append (h.category _)

theorem nodup_names (h : a.Permuted b) (distinct : a.names.Nodup) : b.names.Nodup :=
  (h.all.map Declaration.name).nodup_iff.mp distinct

theorem find?_eq (h : a.Permuted b) (distinct : a.names.Nodup) : a.find? = b.find? := by
  funext name
  refine Option.ext fun d => ?_
  rw [find?_eq_some_iff distinct, find?_eq_some_iff (h.nodup_names distinct), h.all.mem_iff]

theorem findKind?_eq (h : a.Permuted b) (distinct : a.names.Nodup) : a.findKind? = b.findKind? := by
  funext kind name
  refine Option.ext fun d => ?_
  rw [findKind?_eq_some_iff distinct, findKind?_eq_some_iff (h.nodup_names distinct), h.all.mem_iff]

theorem resolveKinds (h : a.Permuted b) (distinct : a.names.Nodup) :
    a.resolveKinds.Permuted b.resolveKinds := by
  have hfield : a.resolveField = b.resolveField := by
    funext f
    simp only [resolveField, kindOf, h.find?_eq distinct]
  have hrecord : a.resolveRecord = b.resolveRecord := by
    funext d
    rw [resolveRecord, resolveRecord, hfield]
  have hinput : a.resolveInput = b.resolveInput := by
    funext d
    rw [resolveInput, resolveInput, hfield]
  refine ⟨?_, ?_, ?_, h.unions, h.enums, h.scalars⟩
  · simpa only [Declarations.resolveKinds, hrecord] using h.objects.map _
  · simpa only [Declarations.resolveKinds, hinput] using h.inputs.map _
  · simpa only [Declarations.resolveKinds, hrecord] using h.interfaces.map _

theorem agrees (h : a.Permuted b) (distinct : a.names.Nodup) :
    Scope.Agrees { declarations := a } { declarations := b } := ⟨h.findKind?_eq distinct, rfl⟩

/-- What is reached from one order is reached from any other. -/
theorem reached (h : a.Permuted b) (distinct : a.names.Nodup) {d : Declaration}
    (hd : Scope.Reached { declarations := a } d) : Scope.Reached { declarations := b } d := by
  have hagrees := h.agrees distinct
  induction hd with
  | root hroot he => exact .root (h.roots.mem_iff.mp hroot) (hagrees.found ▸ he)
  | asked _ hasked ih =>
    obtain ⟨kind, name, htask, he⟩ := hasked
    exact .asked ih ⟨kind, name, hagrees.tasks_eq ▸ htask, hagrees.found ▸ he⟩

theorem reached_perm (h : a.Permuted b) (distinct : a.names.Nodup) :
    (Survey.ofRoots { declarations := a }).reached.Perm
      (Survey.ofRoots { declarations := b }).reached := by
  have hdistinct := h.nodup_names distinct
  refine (List.perm_ext_iff_of_nodup a.sound_ofRoots.distinct.of_map
    b.sound_ofRoots.distinct.of_map).mpr fun e => ?_
  rw [mem_reached_iff distinct, mem_reached_iff hdistinct]
  exact ⟨fun he => ⟨he.1, h.reached distinct he.2⟩, fun he => ⟨he.1, h.symm.reached hdistinct he.2⟩⟩

end Permuted

/-- Declarations in another order are compiled to the same definitions under the same names. -/
theorem compile_permuted (h : a.Permuted b) (distinct : a.names.Nodup) (config : Config) :
    ∃ c c', a.compile config = .ok c ∧ b.compile config = .ok c' ∧
      c.registry.entries.Perm c'.registry.entries ∧
      ∀ name, c.registry.find? name = c'.registry.find? name := by
  have hresolved := h.resolveKinds distinct
  have hdistinct : a.resolveKinds.names.Nodup := a.names_resolveKinds ▸ distinct
  have hcontent := (hresolved.agrees hdistinct).content_eq config
  have hperm := (hresolved.reached_perm hdistinct).map fun e =>
    (e.1, Scope.content { declarations := a.resolveKinds } config e.2)
  have hnodup := a.resolveKinds.sound_ofRoots.distinct
  refine ⟨_, _, compile_of_distinct distinct config,
    compile_of_distinct (h.nodup_names distinct) config, ?_, fun name => ?_⟩
  · simpa only [hcontent] using hperm
  · rw [← hcontent]
    refine Entries.lookup_perm hperm ?_ name
    simpa [Entries.keys, Survey.names, Function.comp_def] using hnodup

/-- Two objects that refer to each other. -/
theorem compile_permuted_cycle :
    let a : RecordDeclaration := ⟨"A", [⟨"b", .named "B", .unknown⟩], []⟩
    let b : RecordDeclaration := ⟨"B", [⟨"a", .list (.named "A"), .unknown⟩], []⟩
    ∃ c c', compile { objects := [a, b] } {} = .ok c ∧ compile { objects := [b, a] } {} = .ok c' ∧
      c.registry.entries.Perm c'.registry.entries ∧
      ∀ name, c.registry.find? name = c'.registry.find? name := by
  intro a b
  exact compile_permuted ⟨.swap b a [], .nil, .nil, .nil, .nil, .nil⟩ (by decide) {}

end Declarations

end CheckedModels
