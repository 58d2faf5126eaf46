import CheckedModels.Compile.Lineage
import CheckedModels.Proofs.Entries

/-! How the walk through interfaces goes on, step by step. -/
namespace CheckedModels.Scope

variable {s : Scope} {steps : List Walk} {seen : List String} {name : String} {d : RecordDeclaration}

theorem lineageFrom_unknown (h : s.interface? name = none) :
    s.lineageFrom (.enter name :: steps) seen = s.lineageFrom steps seen := by
  rw [lineageFrom]
  split
  · rfl
  · next found => simp [h] at found

theorem lineageFrom_seen (h : s.interface? name = some d) (hs : d.name ∈ seen) :
    s.lineageFrom (.enter name :: steps) seen = s.lineageFrom steps seen := by
  rw [lineageFrom]
  split
  · rfl
  · next e found =>
    obtain rfl : e = d := Option.some.inj (found.symm.trans h)
    rw [dif_pos hs]

theorem lineageFrom_new (h : s.interface? name = some d) (hn : d.name ∉ seen) :
    s.lineageFrom (.enter name :: steps) seen =
      s.lineageFrom (d.interfaces.map .enter ++ .leave d :: steps) (d.name :: seen) := by
  rw [lineageFrom]
  split
  · next found => simp [h] at found
  · next e found =>
    obtain rfl : e = d := Option.some.inj (found.symm.trans h)
    rw [dif_neg hn]

/-- What holds of the interfaces to begin with, and of those that such an interface lists, holds of
every interface that is walked through. -/
theorem forall_lineageFrom {P : RecordDeclaration → Prop}
    (hstep : ∀ i, P i → ∀ name ∈ i.interfaces, ∀ j, s.interface? name = some j → P j)
    (henter : ∀ name, .enter name ∈ steps → ∀ i, s.interface? name = some i → P i)
    (hleave : ∀ i, .leave i ∈ steps → P i) : ∀ i ∈ s.lineageFrom steps seen, P i := by
  induction steps, seen using lineageFrom.induct (s := s) with
  | case1 seen => simp [lineageFrom]
  | case2 seen d rest ih =>
    rw [lineageFrom]
    refine List.forall_mem_cons.mpr ⟨hleave d List.mem_cons_self, ih ?_ ?_⟩
    · exact fun name hm => henter name (List.mem_cons_of_mem _ hm)
    · exact fun i hm => hleave i (List.mem_cons_of_mem _ hm)
  | case3 seen name rest found ih =>
    rw [lineageFrom_unknown found]
    refine ih (fun name hm => henter name (List.mem_cons_of_mem _ hm)) ?_
    exact fun i hm => hleave i (List.mem_cons_of_mem _ hm)
  | case4 seen name rest d found mem ih =>
    rw [lineageFrom_seen found mem]
    refine ih (fun name hm => henter name (List.mem_cons_of_mem _ hm)) ?_
    exact fun i hm => hleave i (List.mem_cons_of_mem _ hm)
  | case5 seen name rest d found new ih =>
    have hd : P d := henter name List.mem_cons_self d found
    rw [lineageFrom_new found new]
    refine ih (fun other hm i hi => ?_) fun i hm => ?_
    · rcases List.mem_append.mp hm with hm | hm
      · obtain ⟨parent, hparent, heq⟩ := List.mem_map.mp hm
        obtain rfl : parent = other := Walk.enter.inj heq
        exact hstep d hd parent hparent i hi
      · refine henter other ?_ i hi
        exact List.mem_cons_of_mem _ ((List.mem_cons.mp hm).resolve_left Walk.noConfusion)
    · rcases List.mem_append.mp hm with hm | hm
      · simp at hm
      · rcases List.mem_cons.mp hm with heq | hm
        · rw [Walk.leave.inj heq]
          exact hd
        · exact hleave i (List.mem_cons_of_mem _ hm)

theorem mem_all_of_interface? (h : s.interface? name = some d) :
    .interface d ∈ s.declarations.all ∧ d.name = name := by
  unfold interface? at h
  split at h
  · next i found =>
    obtain rfl : i = d := Option.some.inj h
    obtain ⟨hmem, hname, -⟩ := Declarations.findKind?_mem found
    exact ⟨hmem, hname⟩
  · simp at h

theorem exists_lineage_of_mem_mergedFields {e : String × Field} (h : e ∈ s.mergedFields name) :
    ∃ i ∈ s.lineage name, e.2 ∈ i.fields := by
  have hlisted := (Entries.mem_putAll h).resolve_right List.not_mem_nil
  obtain ⟨i, hi, hpair⟩ := List.mem_flatMap.mp hlisted
  obtain ⟨f, hf, rfl⟩ := List.mem_map.mp hpair
  exact ⟨i, hi, hf⟩

theorem exists_interface_of_mem_mergedFields {e : String × Field} (h : e ∈ s.mergedFields name) :
    ∃ i, .interface i ∈ s.declarations.all ∧ e.2 ∈ i.fields := by
  obtain ⟨i, hi, hf⟩ := exists_lineage_of_mem_mergedFields h
  have hdeclared : ∀ i ∈ s.lineage name, .interface i ∈ s.declarations.all :=
    forall_lineageFrom (fun _ _ _ _ _ hj => (mem_all_of_interface? hj).1)
      (fun _ _ _ hj => (mem_all_of_interface? hj).1) (by simp)
  exact ⟨i, hdeclared i hi, hf⟩

theorem mergedFields_of_unknown (h : s.interface? name = none) : s.mergedFields name = [] := by
  have hlineage : s.lineage name = [] := by
    rw [lineage, lineageFrom_unknown h, lineageFrom]
  rw [mergedFields, hlineage]
  rfl

end CheckedModels.Scope
