import CheckedModels.Proofs.Compile.Descent
import CheckedModels.Proofs.Declaration.Category

/-! Compiling a whole schema: it never fails, registers what the survey of the roots reaches, and
makes one definition for each name. -/
namespace CheckedModels

namespace Scope

open Workshop

variable {s : Scope} {config : Config} {w : Workshop} {v : Survey}

/-- The roots that are left are compiled the way the survey goes, after those that came before. -/
theorem leads_roots {before todo : List Declaration} (hroots : s.declarations.roots = before ++ todo)
    (hw : w.Tracks s config [] v) (hbefore : ∀ e ∈ before, e.name ∈ v.names) :
    Leads s config [] w
      (todo.forM fun d => discard (s.build config s.declarations.names.length d))
      (Survey.run s (todo.map fun d => .reach d.kind d.name) v) fun _ _ => True := by
  induction todo generalizing before w v with
  | nil =>
    rw [List.map_nil, Survey.run_nil]
    exact Leads.pure hw trivial
  | cons d rest ih =>
    have hmem : d ∈ s.declarations.roots := by simp [hroots]
    obtain ⟨first, hfirst⟩ := Declarations.exists_findKind?_of_mem_roots hmem
    have hlead : Leads s config [] w (s.build config s.declarations.names.length d)
        (Survey.run s [.reach d.kind d.name] v) fun _ _ => True := by
      by_cases hseen : d.name ∈ v.names
      · rw [Survey.run_reach_seen hseen, Survey.run_nil]
        exact leads_seen hw hseen
      · have hd : s.declarations.findKind? d.kind d.name = some d :=
          Declarations.findKind?_of_roots hroots fun e he heq => hseen (heq ▸ hbefore e he)
        have hdepth : unseen s.declarations.names v.names ≤ s.declarations.names.length :=
          List.countP_le_length
        exact (leads_build hw hdepth hd).imp fun _ _ _ _ => trivial
    have hlater : ∀ e ∈ before ++ [d], e.name ∈ (Survey.run s [.reach d.kind d.name] v).names := by
      intro e he
      rcases List.mem_append.mp he with he | he
      · exact Survey.names_subset (Survey.prefix_run _ v) (hbefore e he)
      · obtain rfl : e = d := List.mem_singleton.mp he
        exact Survey.mem_names_run_reach hfirst v
    rw [List.map_cons, Survey.run_single_cons, List.forM_eq_forM, List.forM_cons]
    refine hlead.discard.bind fun _ w' _ htracks _ => ?_
    exact ih (by rw [hroots, List.append_assoc, List.singleton_append]) htracks hlater

end Scope

namespace Workshop

variable {s : Scope} {config : Config} {w : Workshop} {v : Survey}

namespace Tracks

theorem exists_of_mem (h : w.Tracks s config [] v) {e : String × Declaration} (he : e ∈ v.reached) :
    ∃ key made, w.names.lookup e.1 = some key ∧ w.made.find? key = some made ∧
      v.Finished s config w.names e.2 made := by
  obtain ⟨key, made, hkey, hmade, -, hfin⟩ := h.kept e he
  exact ⟨key, made, hkey, hmade, hfin List.not_mem_nil⟩

theorem exists_of_lookup (h : w.Tracks s config [] v) {name key : String}
    (hkey : w.names.lookup name = some key) :
    ∃ d made, (name, d) ∈ v.reached ∧ w.made.find? key = some made ∧
      v.Finished s config w.names d made := by
  have hname : name ∈ v.names := (h.lookup_isSome name).mp (by simp [hkey])
  obtain ⟨d, hd⟩ := Entries.exists_lookup hname
  obtain ⟨other, made, hother, hmade, hfin⟩ := h.exists_of_mem (Entries.mem_of_lookup hd)
  obtain rfl : other = key := Option.some.inj (hother.symm.trans hkey)
  exact ⟨d, made, Entries.mem_of_lookup hd, hmade, hfin⟩

/-- With nothing left open, the content of every declaration is published under its name. -/
theorem published_eq (h : w.Tracks s config [] v) :
    w.published = ⟨v.reached.map fun e => (e.1, v.content s config e.2)⟩ := by
  unfold published
  congr 1
  refine Entries.filterMap_eq_map h.names fun e he key hmem => ?_
  obtain ⟨other, made, hother, hmade, hfin⟩ := h.exists_of_mem he
  have hdistinct : (Entries.keys w.names).Nodup := h.names ▸ h.sound.distinct
  obtain rfl : other = key :=
    Option.some.inj (hother.symm.trans (Entries.lookup_of_mem hdistinct hmem))
  simp [hmade, rename_definition_of_links h.nodup_keys hfin.links]

end Tracks

end Workshop

namespace Declarations

/-- Nothing is left open, and what is registered is what the roots lead to. -/
theorem assemble_tracks (ds : Declarations) (config : Config) :
    ∃ w, ds.assemble config {} = .ok ((), w) ∧
      w.Tracks { declarations := ds } config [] (Survey.ofRoots { declarations := ds }) := by
  have hstart : Workshop.Tracks { declarations := ds } config [] {} {} := Workshop.tracks_empty
  have hroots : ds.roots = [] ++ ds.roots := rfl
  obtain ⟨_, w, hrun, -, htracks, -⟩ := Scope.leads_roots hroots hstart (by simp)
  exact ⟨w, hrun, htracks⟩

theorem compile_of_assemble {ds : Declarations} {config : Config} {w : Workshop}
    (h : ds.resolveKinds.assemble config {} = .ok ((), w)) :
    ds.compile config = .ok ⟨w.published, w.notes ++ [.compiled w.names.length]⟩ := by
  unfold compile
  change (ds.resolveKinds.assemble config {} >>= fun p => Except.ok (⟨p.2.published, _⟩ : Compilation)) = _
  rw [h]
  rfl

/-- Compiling gives the content of what the roots lead to, in the order in which it is reached. -/
theorem compile_eq (ds : Declarations) (config : Config) :
    let s : Scope := { declarations := ds.resolveKinds }
    let v := Survey.ofRoots s
    ds.compile config = .ok ⟨⟨v.reached.map fun e => (e.1, v.content s config e.2)⟩,
      v.notes ++ [.compiled v.reached.length]⟩ := by
  intro s v
  obtain ⟨w, hrun, htracks⟩ := ds.resolveKinds.assemble_tracks config
  have hlen : w.names.length = v.reached.length := by
    have := congrArg List.length htracks.names
    simpa [Entries.keys, Survey.names] using this
  rw [compile_of_assemble hrun, htracks.published_eq, htracks.notes, hlen]

theorem keys_compile {ds : Declarations} {config : Config} {c : Compilation}
    (hc : ds.compile config = .ok c) :
    c.registry.keys = (Survey.ofRoots { declarations := ds.resolveKinds }).names := by
  rw [compile_eq] at hc
  obtain rfl := Except.ok.inj hc
  exact Survey.keys_map _ _

/-- Compiling never fails, however declarations repeat names or refer to each other. Every name that is
registered is declared, no name is registered twice, and one definition is made for each. -/
theorem compile_total (ds : Declarations) (config : Config) :
    ∃ w, (ds.resolveKinds.assemble config).run {} = .ok ((), w) ∧
      ds.compile config = .ok ⟨w.published, w.notes ++ [.compiled w.names.length]⟩ ∧
      w.published.keys = w.names.keys ∧ w.names.keys.Nodup ∧ w.names.keys ⊆ ds.names ∧
      w.made.keys = w.names.map Prod.snd ∧ w.made.keys.Nodup := by
  obtain ⟨w, hrun, htracks⟩ := ds.resolveKinds.assemble_tracks config
  refine ⟨w, hrun, compile_of_assemble hrun, ?_, ?_, ?_, htracks.registered.symm,
    htracks.numbered.nodup⟩
  · rw [htracks.published_eq, htracks.names]
    simp [Registry.keys, Entries.keys, Survey.names]
  · rw [htracks.names]
    exact htracks.sound.distinct
  · rw [htracks.names]
    intro name hname
    obtain ⟨e, he, rfl⟩ := List.mem_map.mp hname
    have hfound := htracks.sound.found e he
    obtain ⟨hmem, hname, -⟩ := findKind?_mem hfound
    rw [← names_resolveKinds, ← hname]
    exact mem_names hmem

end Declarations

end CheckedModels
