import CheckedModels.Compile.Basic
import CheckedModels.Proofs.Compile.Composition

/-! How a survey goes on, task by task, and what it makes of the declarations that it reaches. -/
namespace CheckedModels

def Declaration.members : Declaration → List String
  | .union u => u.members
  | _ => []

theorem Declaration.members_of_isModel (d : Declaration) (h : d.isModel = true) :
    d.members = [] := by
  cases d with
  | object | input | interface | enum | scalar => rfl
  | union => cases h

theorem Scope.tasks_of_isModel {s : Scope} {d : Declaration} (h : d.isModel = true) :
    s.tasks d = d.fields.flatMap s.ownTasks ++ d.interfaces.flatMap (s.interfaceTasks d) := by
  cases d with
  | object | input | interface | enum | scalar => rfl
  | union => cases h

namespace Survey

variable {s : Scope} {v v' : Survey} {rest : List Task}

theorem run_nil : run s [] v = v := by rw [run]

theorem run_remark (n : Note) : run s (.remark n :: rest) v = run s rest (v.note n) := by rw [run]

theorem run_member (name union : String) :
    run s (.member name union :: rest) v =
      run s rest (if v.hasModel name then v else v.note (.skippedMember name union)) := by
  rw [run]

theorem run_reach_none {kind : DeclarationKind} {name : String}
    (h : s.declarations.findKind? kind name = none) :
    run s (.reach kind name :: rest) v = run s rest v := by
  rw [run]
  split
  · rfl
  · next found => simp [h] at found

theorem run_reach_seen {kind : DeclarationKind} {name : String} (h : name ∈ v.names) :
    run s (.reach kind name :: rest) v = run s rest v := by
  rw [run]
  split
  · rfl
  · next d found =>
    rw [dif_pos ((Declarations.findKind?_mem found).2.1 ▸ h)]

theorem run_reach_new {kind : DeclarationKind} {name : String} {d : Declaration}
    (h : s.declarations.findKind? kind name = some d) (new : name ∉ v.names) :
    run s (.reach kind name :: rest) v = run s (s.tasks d ++ rest) (v.add d) := by
  rw [run]
  split
  · next found => simp [h] at found
  · next d' found =>
    obtain rfl : d' = d := Option.some.inj (found.symm.trans h)
    rw [dif_neg ((Declarations.findKind?_mem found).2.1 ▸ new)]

theorem run_append (todo rest : List Task) (v : Survey) :
    run s (todo ++ rest) v = run s rest (run s todo v) := by
  induction todo, v using run.induct (s := s) with
  | case1 v => rw [run_nil, List.nil_append]
  | case2 v n todo ih => rw [List.cons_append, run_remark, run_remark, ih]
  | case3 v name union todo ih =>
    rw [List.cons_append, run_member, run_member]
    simpa only [dite_eq_ite] using ih
  | case4 v kind name todo found ih =>
    rw [List.cons_append, run_reach_none found, run_reach_none found, ih]
  | case5 v kind name todo d found seen ih =>
    have hseen := (Declarations.findKind?_mem found).2.1 ▸ seen
    rw [List.cons_append, run_reach_seen hseen, run_reach_seen hseen, ih]
  | case6 v kind name todo d found new ih =>
    have hnew := (Declarations.findKind?_mem found).2.1 ▸ new
    rw [List.cons_append, run_reach_new found hnew, run_reach_new found hnew, ← List.append_assoc, ih]

theorem run_single_cons (t : Task) (rest : List Task) (v : Survey) :
    run s (t :: rest) v = run s rest (run s [t] v) := run_append [t] rest v

@[simp] theorem names_note (n : Note) : (v.note n).names = v.names := rfl

@[simp] theorem names_add (d : Declaration) : (v.add d).names = v.names ++ [d.name] := by
  simp [names, add, Entries.keys]

theorem unseen_add_lt {d : Declaration} (hd : s.declarations.findKind? d.kind d.name = some d)
    (new : d.name ∉ v.names) :
    unseen s.declarations.names (v.add d).names < unseen s.declarations.names v.names :=
  unseen_lt (by simp) (Declarations.mem_names (Declarations.findKind?_mem hd).1) new (by simp)

/-- What is reached stays reached, in the same place. -/
theorem prefix_run (todo : List Task) (v : Survey) : v.reached <+: (run s todo v).reached := by
  induction todo, v using run.induct (s := s) with
  | case1 v => exact ⟨[], by rw [run_nil, List.append_nil]⟩
  | case2 v n todo ih => rwa [run_remark]
  | case3 v name union todo ih =>
    rw [run_member]
    simp only [dite_eq_ite] at ih
    refine List.IsPrefix.trans ?_ ih
    split <;> exact List.prefix_rfl
  | case4 v kind name todo found ih => rwa [run_reach_none found]
  | case5 v kind name todo d found seen ih =>
    rwa [run_reach_seen ((Declarations.findKind?_mem found).2.1 ▸ seen)]
  | case6 v kind name todo d found new ih =>
    rw [run_reach_new found ((Declarations.findKind?_mem found).2.1 ▸ new)]
    exact (List.prefix_append _ _).trans ih

theorem names_subset (h : v.reached <+: v'.reached) : v.names ⊆ v'.names :=
  (h.map Prod.fst).subset

theorem mem_names_run_reach {kind : DeclarationKind} {name : String} {d : Declaration}
    (h : s.declarations.findKind? kind name = some d) (v : Survey) :
    name ∈ (run s [.reach kind name] v).names := by
  by_cases hn : name ∈ v.names
  · rw [run_reach_seen hn, run_nil]
    exact hn
  · rw [run_reach_new h hn]
    refine names_subset (prefix_run _ _) ?_
    rw [names_add, (Declarations.findKind?_mem h).2.1]
    simp

theorem hasModel_later (h : v.reached <+: v'.reached) {name : String} (hn : name ∈ v.names) :
    v'.hasModel name = v.hasModel name := by
  obtain ⟨d, hd⟩ := Entries.exists_lookup hn
  simp [hasModel, hd, h.lookup_eq_some hd]

@[simp] theorem hasModel_note (n : Note) (name : String) :
    (v.note n).hasModel name = v.hasModel name := rfl

theorem mem_names_of_hasModel {name : String} (h : v.hasModel name = true) : name ∈ v.names := by
  rw [names, ← Entries.lookup_isSome_iff]
  cases hl : v.reached.lookup name with
  | none => simp [hasModel, hl] at h
  | some d => rfl

theorem alternatives_concat (v : Survey) (s : Scope) (u : UnionDeclaration) (done : List String)
    (member : String) :
    v.alternatives s { u with members := done ++ [member] } =
      v.alternatives s { u with members := done } ++
        if (s.declarations.findKind? .object member).isSome && v.hasModel member
          then [.named member] else [] := by
  unfold alternatives
  rw [List.filter_append, List.map_append, List.filter_singleton]
  cases (s.declarations.findKind? .object member).isSome && v.hasModel member <;> rfl

/-- The members of a union count as the same alternatives later on. -/
theorem alternatives_later (h : v.reached <+: v'.reached) {u : UnionDeclaration}
    (hu : ∀ m ∈ u.members, (s.declarations.findKind? .object m).isSome → m ∈ v.names) :
    v'.alternatives s u = v.alternatives s u := by
  unfold alternatives
  congr 1
  refine List.filter_congr fun m hm => ?_
  cases hf : (s.declarations.findKind? .object m).isSome with
  | false => rfl
  | true => rw [hasModel_later h (hu m hm hf)]

/-- The definition of a declaration, without the checks on the way to it. -/
def content (v : Survey) (s : Scope) (config : Config) : Declaration → Definition
  | .union u => u.definition (v.alternatives s u)
  | .enum e => e.definition
  | .scalar e => e.definition
  | d => .model ⟨d.name, s.compose (config.choice d.name) d, true⟩

theorem content_congr {a b : Config} {d : Declaration} (h : a.choice d.name = b.choice d.name)
    (v : Survey) (s : Scope) : v.content s a d = v.content s b d := by
  cases d with
  | object d | interface d | input d =>
    simp only [Declaration.name] at h
    simp only [content, Declaration.name, h]
  | union | enum | scalar => rfl

theorem keys_map (v : Survey) (f : String × Declaration → Definition) :
    Registry.keys ⟨v.reached.map fun e => (e.1, f e)⟩ = v.names := by
  simp [Registry.keys, Entries.keys, Survey.names]

theorem content_of_isModel {v : Survey} {config : Config} {d : Declaration} (h : d.isModel = true) :
    v.content s config d = .model ⟨d.name, s.compose (config.choice d.name) d, true⟩ := by
  cases d with
  | object | input | interface => rfl
  | union | enum | scalar => cases h

theorem content_later {config : Config} (h : v.reached <+: v'.reached) {d : Declaration}
    (hd : ∀ m ∈ d.members, (s.declarations.findKind? .object m).isSome → m ∈ v.names) :
    v'.content s config d = v.content s config d := by
  cases d with
  | union u => simp only [content, alternatives_later h hd]
  | object | input | interface | enum | scalar => rfl

end Survey

end CheckedModels
