import CheckedModels.Proofs.Compile.Assembly

/-! What a compilation reaches, as a relation: the roots, and what any declaration that is reached asks
for. The survey finds exactly that. -/
namespace CheckedModels

def Scope.Asks (s : Scope) (d e : Declaration) : Prop :=
  ∃ kind name, Task.reach kind name ∈ s.tasks d ∧ s.declarations.findKind? kind name = some e

inductive Scope.Reached (s : Scope) : Declaration → Prop where
  | root {d e : Declaration} (hd : d ∈ s.declarations.roots)
    (he : s.declarations.findKind? d.kind d.name = some e) : Reached s e
  | asked {d e : Declaration} (hd : Reached s d) (he : s.Asks d e) : Reached s e

namespace Survey

variable {s : Scope} {todo : List Task} {v : Survey}

private theorem reached_ite (b : Bool) (n : Note) :
    (if b then v else v.note n).reached = v.reached := by
  split <;> rfl

/-- What holds of everything that is asked for holds of everything that is reached. -/
theorem forall_reached_run {P : Declaration → Prop} (hstep : ∀ d e, P d → s.Asks d e → P e)
    (htodo : ∀ kind name d, Task.reach kind name ∈ todo →
      s.declarations.findKind? kind name = some d → P d)
    (hv : ∀ e ∈ v.reached, P e.2) : ∀ e ∈ (run s todo v).reached, P e.2 := by
  induction todo, v using run.induct (s := s) with
  | case1 v => rwa [run_nil]
  | case2 v n rest ih =>
    rw [run_remark]
    exact ih (fun kind name d hm => htodo kind name d (List.mem_cons_of_mem _ hm)) hv
  | case3 v name union rest ih =>
    rw [run_member]
    simp only [dite_eq_ite, reached_ite] at ih
    exact ih (fun kind name d hm => htodo kind name d (List.mem_cons_of_mem _ hm)) hv
  | case4 v kind name rest found ih =>
    rw [run_reach_none found]
    exact ih (fun kind name d hm => htodo kind name d (List.mem_cons_of_mem _ hm)) hv
  | case5 v kind name rest d found seen ih =>
    rw [run_reach_seen ((Declarations.findKind?_mem found).2.1 ▸ seen)]
    exact ih (fun kind name d hm => htodo kind name d (List.mem_cons_of_mem _ hm)) hv
  | case6 v kind name rest d found new ih =>
    have hd : P d := htodo kind name d List.mem_cons_self found
    rw [run_reach_new found ((Declarations.findKind?_mem found).2.1 ▸ new)]
    refine ih (fun kind name e hm he => ?_) fun e he => ?_
    · rcases List.mem_append.mp hm with hm | hm
      · exact hstep d e hd ⟨kind, name, hm, he⟩
      · exact htodo kind name e (List.mem_cons_of_mem _ hm) he
    · rcases List.mem_append.mp he with he | he
      · exact hv e he
      · rw [List.mem_singleton.mp he]
        exact hd

theorem mem_names_run {kind : DeclarationKind} {name : String} {d : Declaration}
    (hm : Task.reach kind name ∈ todo) (hd : s.declarations.findKind? kind name = some d) (v : Survey) :
    name ∈ (run s todo v).names := by
  obtain ⟨before, after, rfl⟩ := List.append_of_mem hm
  rw [run_append, run_single_cons]
  exact names_subset (prefix_run after _) (mem_names_run_reach hd _)

/-- Whatever was not reached before has all that it asks for reached with it. -/
theorem closed_run (todo : List Task) (v : Survey) : ∀ e ∈ (run s todo v).reached,
    e ∈ v.reached ∨ ∀ d, s.Asks e.2 d → d.name ∈ (run s todo v).names := by
  induction todo, v using run.induct (s := s) with
  | case1 v =>
    rw [run_nil]
    exact fun e he => .inl he
  | case2 v n rest ih => rwa [run_remark]
  | case3 v name union rest ih =>
    rw [run_member]
    simpa only [dite_eq_ite, reached_ite] using ih
  | case4 v kind name rest found ih => rwa [run_reach_none found]
  | case5 v kind name rest d found seen ih =>
    rwa [run_reach_seen ((Declarations.findKind?_mem found).2.1 ▸ seen)]
  | case6 v kind name rest d found new ih =>
    rw [run_reach_new found ((Declarations.findKind?_mem found).2.1 ▸ new)]
    intro e he
    rcases ih e he with hv | hclosed
    · rcases List.mem_append.mp hv with hv | hv
      · exact .inl hv
      · obtain rfl : e = (d.name, d) := List.mem_singleton.mp hv
        right
        rintro f ⟨kind, name, hm, hf⟩
        rw [(Declarations.findKind?_mem hf).2.1]
        exact mem_names_run (List.mem_append_left _ hm) hf _
    · exact .inr hclosed

end Survey

namespace Scope

variable {s : Scope}

theorem reached_of_mem {e : String × Declaration} (he : e ∈ (Survey.ofRoots s).reached) :
    s.Reached e.2 := by
  refine Survey.forall_reached_run (P := s.Reached) (fun d e hd he => .asked hd he) ?_ (by simp) e he
  intro kind name d hm hd
  obtain ⟨root, hroot, heq⟩ := List.mem_map.mp hm
  obtain ⟨rfl, rfl⟩ := Task.reach.inj heq
  exact .root hroot hd

end Scope

namespace Declarations

variable {ds : Declarations}

theorem sound_ofRoots (ds : Declarations) :
    (Survey.ofRoots { declarations := ds }).Sound { declarations := ds } := by
  obtain ⟨w, -, htracks⟩ := ds.assemble_tracks {}
  exact htracks.sound

theorem find?_compile (ds : Declarations) (config : Config) :
    let s : Scope := { declarations := ds.resolveKinds }
    let v := Survey.ofRoots s
    ∃ c, ds.compile config = .ok c ∧
      ∀ name, c.registry.find? name = (v.reached.lookup name).map (v.content s config) :=
  ⟨_, compile_eq ds config, fun name => Entries.lookup_map _ _ name⟩

/-- Where no name is declared twice, a declaration whose name is reached is reached itself. -/
theorem mem_reached_of_mem_names (distinct : ds.names.Nodup) {d : Declaration} (hd : d ∈ ds.all)
    (hn : d.name ∈ (Survey.ofRoots { declarations := ds }).names) :
    (d.name, d) ∈ (Survey.ofRoots { declarations := ds }).reached := by
  obtain ⟨e, he, hname⟩ := List.mem_map.mp hn
  have hfound := ds.sound_ofRoots.found e he
  obtain ⟨hmem, hname', -⟩ := findKind?_mem hfound
  obtain rfl : e.2 = d := eq_of_name_eq distinct hmem hd (hname'.trans hname)
  rwa [← hname]

theorem mem_of_reached (distinct : ds.names.Nodup) {d : Declaration}
    (h : Scope.Reached { declarations := ds } d) :
    (d.name, d) ∈ (Survey.ofRoots { declarations := ds }).reached := by
  induction h with
  | root hroot he =>
    obtain ⟨hmem, hname, -⟩ := findKind?_mem he
    refine mem_reached_of_mem_names distinct hmem ?_
    rw [hname]
    exact Survey.mem_names_run (List.mem_map.mpr ⟨_, hroot, rfl⟩) he {}
  | asked _ hasked ih =>
    obtain ⟨kind, name, htask, he⟩ := hasked
    refine mem_reached_of_mem_names distinct (findKind?_mem he).1 ?_
    rcases Survey.closed_run _ {} _ ih with hempty | hclosed
    · simp at hempty
    · exact hclosed _ ⟨kind, name, htask, he⟩

/-- Where no name is declared twice, exactly what is asked for is reached. -/
theorem mem_reached_iff (distinct : ds.names.Nodup) {e : String × Declaration} :
    e ∈ (Survey.ofRoots { declarations := ds }).reached ↔
      e.1 = e.2.name ∧ Scope.Reached { declarations := ds } e.2 := by
  constructor
  · intro he
    exact ⟨(ds.sound_ofRoots.name_eq he).symm, Scope.reached_of_mem he⟩
  · rintro ⟨hname, hreached⟩
    obtain ⟨name, d⟩ := e
    obtain rfl : name = d.name := hname
    exact mem_of_reached distinct hreached

theorem mem_names_of_mem_members {e : String × Declaration}
    (he : e ∈ (Survey.ofRoots { declarations := ds }).reached) {m : String} (hm : m ∈ e.2.members)
    (ho : (ds.findKind? .object m).isSome) : m ∈ (Survey.ofRoots { declarations := ds }).names := by
  obtain ⟨w, -, htracks⟩ := ds.assemble_tracks {}
  obtain ⟨_, _, -, -, hfin⟩ := htracks.exists_of_mem he
  exact hfin.members m hm ho

end Declarations

/-- The definition of a declaration where no name is declared twice: every member of a union that is an
object counts. -/
def Scope.content (s : Scope) (config : Config) : Declaration → Definition
  | .union u => u.definition
    ((u.members.filter fun m => (s.declarations.findKind? .object m).isSome).map .named)
  | .enum e => e.definition
  | .scalar e => e.definition
  | d => .model ⟨d.name, s.compose (config.choice d.name) d, true⟩

namespace Declarations

variable {ds : Declarations}

theorem content_ofRoots (distinct : ds.names.Nodup) (config : Config) {e : String × Declaration}
    (he : e ∈ (Survey.ofRoots { declarations := ds }).reached) :
    (Survey.ofRoots { declarations := ds }).content { declarations := ds } config e.2 =
      Scope.content { declarations := ds } config e.2 := by
  obtain ⟨name, d⟩ := e
  cases d with
  | union u =>
    have hmembers : ∀ m ∈ u.members, (ds.findKind? .object m).isSome = true →
        (Survey.ofRoots { declarations := ds }).hasModel m = true := by
      intro m hm ho
      obtain ⟨o, hfound⟩ := Option.isSome_iff_exists.mp ho
      obtain ⟨hmem, rfl, hkind⟩ := findKind?_mem hfound
      have hreached := mem_reached_of_mem_names distinct hmem (mem_names_of_mem_members he hm ho)
      have hlookup := Entries.lookup_of_mem ds.sound_ofRoots.distinct hreached
      simp [Survey.hasModel, hlookup, Declaration.isModel, hkind]
    have hfilter : (u.members.filter fun m => (ds.findKind? .object m).isSome &&
        (Survey.ofRoots { declarations := ds }).hasModel m) =
        u.members.filter fun m => (ds.findKind? .object m).isSome := by
      refine List.filter_congr fun m hm => ?_
      cases ho : (ds.findKind? .object m).isSome with
      | false => rfl
      | true => rw [hmembers m hm ho, Bool.and_self]
    simp only [Survey.content, Survey.alternatives, Scope.content, hfilter]
  | object | input | interface | enum | scalar => rfl

/-- Where no name is declared twice, what is compiled is the content of what is reached. -/
theorem compile_of_distinct (distinct : ds.names.Nodup) (config : Config) :
    let s : Scope := { declarations := ds.resolveKinds }
    let v := Survey.ofRoots s
    ds.compile config = .ok ⟨⟨v.reached.map fun e => (e.1, s.content config e.2)⟩,
      v.notes ++ [.compiled v.reached.length]⟩ := by
  intro s v
  have hdistinct : ds.resolveKinds.names.Nodup := ds.names_resolveKinds ▸ distinct
  have hcontent : (v.reached.map fun e => (e.1, v.content s config e.2)) =
      v.reached.map fun e => (e.1, s.content config e.2) :=
    List.map_congr_left fun e he => by rw [content_ofRoots hdistinct config he]
  rw [compile_eq, ← hcontent]

end Declarations

end CheckedModels
