import CheckedModels.Proofs.Compile.Lineage
import Mathlib.Logic.Relation

/-! What the walk through interfaces visits: everything that the first ones lead to, once, whatever was
seen before that leads nowhere else. -/
namespace CheckedModels.Scope

variable {s : Scope} {steps rest : List Walk} {seen : List String} {name : String}
  {i j : RecordDeclaration}

def Extends (s : Scope) (i j : RecordDeclaration) : Prop :=
  ∃ name ∈ i.interfaces, s.interface? name = some j

theorem interface?_name (h : s.interface? name = some i) : s.interface? i.name = some i := by
  rwa [(name_of_interface? h).1]

@[simp] theorem lineageFrom_nil : s.lineageFrom [] seen = [] := by rw [lineageFrom]

@[simp] theorem lineageFrom_leave :
    s.lineageFrom (.leave i :: steps) seen = i :: s.lineageFrom steps seen := by
  rw [lineageFrom]

/-- Only what was seen counts, and not in which order. -/
theorem lineageFrom_congr {other : List String} (h : ∀ name, name ∈ seen ↔ name ∈ other) :
    s.lineageFrom steps seen = s.lineageFrom steps other := by
  induction steps, seen using lineageFrom.induct (s := s) generalizing other with
  | case1 seen => rw [lineageFrom_nil, lineageFrom_nil]
  | case2 seen d rest ih => rw [lineageFrom_leave, lineageFrom_leave, ih h]
  | case3 seen name rest found ih =>
    rw [lineageFrom_unknown found, lineageFrom_unknown found, ih h]
  | case4 seen name rest d found mem ih =>
    rw [lineageFrom_seen found mem, lineageFrom_seen found ((h _).mp mem), ih h]
  | case5 seen name rest d found new ih =>
    rw [lineageFrom_new found new, lineageFrom_new found fun mem => new ((h _).mpr mem)]
    exact ih fun name => by simp [h name]

/-- Names that are unknown or were seen before add nothing. -/
theorem lineageFrom_skip {names : List String}
    (h : ∀ name ∈ names, (s.interface? name).isSome = true → name ∈ seen) :
    s.lineageFrom (names.map .enter ++ steps) seen = s.lineageFrom steps seen := by
  induction names with
  | nil => rfl
  | cons name names ih =>
    have hrest := ih fun other hother => h other (List.mem_cons_of_mem _ hother)
    rw [List.map_cons, List.cons_append]
    cases hi : s.interface? name with
    | none => rw [lineageFrom_unknown hi, hrest]
    | some i =>
      have hseen : i.name ∈ seen := by
        rw [(name_of_interface? hi).1]
        exact h name List.mem_cons_self (by rw [hi]; rfl)
      rw [lineageFrom_seen hi hseen, hrest]

theorem mem_lineageFrom_of_leave (h : .leave i ∈ steps) : i ∈ s.lineageFrom steps seen := by
  induction steps, seen using lineageFrom.induct (s := s) with
  | case1 seen => simp at h
  | case2 seen d rest ih =>
    rw [lineageFrom_leave]
    rcases List.mem_cons.mp h with heq | hrest
    · rw [Walk.leave.inj heq]
      exact List.mem_cons_self
    · exact List.mem_cons_of_mem _ (ih hrest)
  | case3 seen name rest found ih =>
    rw [lineageFrom_unknown found]
    exact ih ((List.mem_cons.mp h).resolve_left Walk.noConfusion)
  | case4 seen name rest d found mem ih =>
    rw [lineageFrom_seen found mem]
    exact ih ((List.mem_cons.mp h).resolve_left Walk.noConfusion)
  | case5 seen name rest d found new ih =>
    rw [lineageFrom_new found new]
    refine ih (List.mem_append_right _ (List.mem_cons_of_mem _ ?_))
    exact (List.mem_cons.mp h).resolve_left Walk.noConfusion

theorem mem_lineageFrom_of_enter (h : .enter name ∈ steps) (hi : s.interface? name = some i) :
    name ∈ seen ∨ i ∈ s.lineageFrom steps seen := by
  induction steps, seen using lineageFrom.induct (s := s) with
  | case1 seen => simp at h
  | case2 seen d rest ih =>
    rw [lineageFrom_leave]
    exact (ih ((List.mem_cons.mp h).resolve_left Walk.noConfusion)).imp_right (List.mem_cons_of_mem _)
  | case3 seen other rest found ih =>
    rw [lineageFrom_unknown found]
    refine ih ((List.mem_cons.mp h).resolve_left fun heq => ?_)
    rw [Walk.enter.inj heq, found] at hi
    cases hi
  | case4 seen other rest d found mem ih =>
    rw [lineageFrom_seen found mem]
    rcases List.mem_cons.mp h with heq | hrest
    · left
      rwa [Walk.enter.inj heq, ← (name_of_interface? found).1]
    · exact ih hrest
  | case5 seen other rest d found new ih =>
    rw [lineageFrom_new found new]
    have hvisited : d ∈ s.lineageFrom (d.interfaces.map .enter ++ .leave d :: rest) (d.name :: seen) :=
      mem_lineageFrom_of_leave (List.mem_append_right _ List.mem_cons_self)
    by_cases hname : name = other
    · right
      rw [hname, found] at hi
      rwa [← Option.some.inj hi]
    · have hrest : .enter name ∈ rest :=
        (List.mem_cons.mp h).resolve_left fun heq => hname (Walk.enter.inj heq)
      rcases ih (List.mem_append_right _ (List.mem_cons_of_mem _ hrest)) with hseen | hin
      · rcases List.mem_cons.mp hseen with heq | hseen
        · exact absurd (heq.trans (name_of_interface? found).1) hname
        · exact .inl hseen
      · exact .inr hin

/-- The interfaces that a visited one lists are visited too, unless they were seen before. -/
theorem closed_lineageFrom (h : i ∈ s.lineageFrom steps seen) : .leave i ∈ steps ∨
    ∀ name ∈ i.interfaces, ∀ j, s.interface? name = some j →
      name ∈ seen ∨ j ∈ s.lineageFrom steps seen := by
  induction steps, seen using lineageFrom.induct (s := s) with
  | case1 seen => simp at h
  | case2 seen d rest ih =>
    rw [lineageFrom_leave] at h ⊢
    rcases List.mem_cons.mp h with rfl | hrest
    · exact .inl List.mem_cons_self
    · refine (ih hrest).imp (List.mem_cons_of_mem _) fun hclosed name hname j hj => ?_
      exact (hclosed name hname j hj).imp_right (List.mem_cons_of_mem _)
  | case3 seen other rest found ih =>
    rw [lineageFrom_unknown found] at h ⊢
    exact (ih h).imp_left (List.mem_cons_of_mem _)
  | case4 seen other rest d found mem ih =>
    rw [lineageFrom_seen found mem] at h ⊢
    exact (ih h).imp_left (List.mem_cons_of_mem _)
  | case5 seen other rest d found new ih =>
    rw [lineageFrom_new found new] at h ⊢
    have hvisited : d ∈ s.lineageFrom (d.interfaces.map .enter ++ .leave d :: rest) (d.name :: seen) :=
      mem_lineageFrom_of_leave (List.mem_append_right _ List.mem_cons_self)
    -- The interface that is entered here counts as visited, no longer as seen before.
    have hback : ∀ name j, s.interface? name = some j → name ∈ d.name :: seen ∨
        j ∈ s.lineageFrom (d.interfaces.map .enter ++ .leave d :: rest) (d.name :: seen) →
        name ∈ seen ∨
          j ∈ s.lineageFrom (d.interfaces.map .enter ++ .leave d :: rest) (d.name :: seen) := by
      intro name j hj hcase
      rcases hcase with hseen | hin
      · rcases List.mem_cons.mp hseen with rfl | hseen
        · rw [interface?_name found] at hj
          rw [← Option.some.inj hj]
          exact .inr hvisited
        · exact .inl hseen
      · exact .inr hin
    rcases ih h with hleave | hclosed
    · rcases List.mem_append.mp hleave with hmem | hmem
      · simp at hmem
      · rcases List.mem_cons.mp hmem with heq | hmem
        · right
          intro name hname j hj
          rw [Walk.leave.inj heq] at hname
          have henter : Walk.enter name ∈ d.interfaces.map .enter ++ .leave d :: rest :=
            List.mem_append_left _ (List.mem_map_of_mem hname)
          exact hback name j hj (mem_lineageFrom_of_enter henter hj)
        · exact .inl (List.mem_cons_of_mem _ hmem)
    · exact .inr fun name hname j hj => hback name j hj (hclosed name hname j hj)

theorem lineageFrom_append (hleave : ∀ i, .leave i ∈ steps → i.name ∈ seen) :
    s.lineageFrom (steps ++ rest) seen = s.lineageFrom steps seen ++
      s.lineageFrom rest ((s.lineageFrom steps seen).map RecordDeclaration.name ++ seen) := by
  induction steps, seen using lineageFrom.induct (s := s) with
  | case1 seen => simp
  | case2 seen d steps ih =>
    have hd : d.name ∈ seen := hleave d List.mem_cons_self
    rw [List.cons_append, lineageFrom_leave, lineageFrom_leave,
      ih fun i hi => hleave i (List.mem_cons_of_mem _ hi), List.cons_append]
    congr 2
    refine lineageFrom_congr fun name => ?_
    simp only [List.map_cons, List.cons_append, List.mem_cons, List.mem_append]
    exact ⟨.inr, fun h => h.elim (fun heq => .inr (heq ▸ hd)) id⟩
  | case3 seen name steps found ih =>
    rw [List.cons_append, lineageFrom_unknown found, lineageFrom_unknown found,
      ih fun i hi => hleave i (List.mem_cons_of_mem _ hi)]
  | case4 seen name steps d found mem ih =>
    rw [List.cons_append, lineageFrom_seen found mem, lineageFrom_seen found mem,
      ih fun i hi => hleave i (List.mem_cons_of_mem _ hi)]
  | case5 seen name steps d found new ih =>
    have hvisited : d ∈ s.lineageFrom (d.interfaces.map .enter ++ .leave d :: steps) (d.name :: seen) :=
      mem_lineageFrom_of_leave (List.mem_append_right _ List.mem_cons_self)
    have hnames : ∀ i, Walk.leave i ∈ d.interfaces.map .enter ++ .leave d :: steps →
        i.name ∈ d.name :: seen := by
      intro i hi
      rcases List.mem_append.mp hi with hi | hi
      · simp at hi
      · rcases List.mem_cons.mp hi with heq | hi
        · rw [Walk.leave.inj heq]
          exact List.mem_cons_self
        · exact List.mem_cons_of_mem _ (hleave i (List.mem_cons_of_mem _ hi))
    rw [List.cons_append, lineageFrom_new found new, lineageFrom_new found new, ← List.cons_append,
      ← List.append_assoc, ih hnames]
    congr 1
    refine lineageFrom_congr fun name => ?_
    have hmem : d.name ∈ (s.lineageFrom (d.interfaces.map .enter ++ .leave d :: steps)
        (d.name :: seen)).map RecordDeclaration.name := List.mem_map_of_mem hvisited
    simp only [List.mem_append, List.mem_cons]
    constructor
    · rintro (hin | rfl | hseen)
      · exact .inl hin
      · exact .inl hmem
      · exact .inr hseen
    · exact Or.imp_right .inr

/-- The interfaces that an interface leads to, itself among them, are those that the walk visits. -/
theorem mem_lineage_iff : i ∈ s.lineage name ↔
    ∃ top, s.interface? name = some top ∧ Relation.ReflTransGen s.Extends top i := by
  constructor
  · intro hi
    refine forall_lineageFrom (s := s)
      (P := fun i => ∃ top, s.interface? name = some top ∧ Relation.ReflTransGen s.Extends top i)
      ?_ ?_ (by simp) i hi
    · rintro i ⟨top, htop, hreach⟩ parent hparent j hj
      exact ⟨top, htop, hreach.tail ⟨parent, hparent, hj⟩⟩
    · intro other hother top htop
      obtain rfl : other = name := by simpa using hother
      exact ⟨top, htop, .refl⟩
  · rintro ⟨top, htop, hreach⟩
    induction hreach with
    | refl => exact (mem_lineageFrom_of_enter List.mem_cons_self htop).resolve_left List.not_mem_nil
    | @tail j k _ hextends ih =>
      obtain ⟨parent, hparent, hk⟩ := hextends
      have hclosed := (closed_lineageFrom ih).resolve_left (by simp)
      exact (hclosed parent hparent k hk).resolve_left List.not_mem_nil

theorem mem_lineage_self (h : s.interface? name = some i) : i ∈ s.lineage name :=
  mem_lineage_iff.mpr ⟨i, h, .refl⟩

theorem mem_lineage_of_extends (hi : i ∈ s.lineage name) (h : s.Extends i j) : j ∈ s.lineage name := by
  obtain ⟨top, htop, hreach⟩ := mem_lineage_iff.mp hi
  exact mem_lineage_iff.mpr ⟨top, htop, hreach.tail h⟩

theorem interface?_of_mem_lineage (h : i ∈ s.lineage name) : s.interface? i.name = some i := by
  refine forall_lineageFrom (s := s) (P := fun i => s.interface? i.name = some i) ?_ ?_ (by simp) i h
  · exact fun _ _ _ _ _ hj => interface?_name hj
  · exact fun _ _ _ hj => interface?_name hj

theorem mem_lineage_trans (hi : i ∈ s.lineage name) (hj : j ∈ s.lineage i.name) :
    j ∈ s.lineage name := by
  obtain ⟨top, htop, hreach⟩ := mem_lineage_iff.mp hi
  obtain ⟨next, hnext, hlater⟩ := mem_lineage_iff.mp hj
  obtain rfl : next = i := Option.some.inj (hnext.symm.trans (interface?_of_mem_lineage hi))
  exact mem_lineage_iff.mpr ⟨top, htop, hreach.trans hlater⟩

/-- A walk visits nothing that it would not visit with nothing seen before. -/
theorem mem_lineage_of_mem_lineageFrom (h : i ∈ s.lineageFrom [.enter name] seen) :
    i ∈ s.lineage name := by
  refine forall_lineageFrom (s := s) (P := fun i => i ∈ s.lineage name) ?_ ?_ (by simp) i h
  · exact fun i hi parent hparent j hj => mem_lineage_of_extends hi ⟨parent, hparent, hj⟩
  · intro other hother j hj
    obtain rfl : other = name := by simpa using hother
    exact mem_lineage_self hj

/-- What was seen before may be left out where no interface that counts is behind it. `R` holds of all that
the walk leads to, and the extra names lead to each other and to what was seen anyway. -/
theorem filter_lineageFrom_append {K : RecordDeclaration → Bool} {R : RecordDeclaration → Prop}
    {extra : List String} (hR : ∀ i, R i → ∀ j, s.Extends i j → R j)
    (henter : ∀ name, .enter name ∈ steps → ∀ i, s.interface? name = some i → R i)
    (hextra : ∀ name ∈ extra, ∀ i, s.interface? name = some i → R i → K i = false ∧
      ∀ parent ∈ i.interfaces, (s.interface? parent).isSome = true → parent ∈ extra ∨ parent ∈ seen) :
    (s.lineageFrom steps (extra ++ seen)).filter K = (s.lineageFrom steps seen).filter K := by
  induction steps, seen using lineageFrom.induct (s := s) with
  | case1 seen => simp
  | case2 seen d rest ih =>
    have hrest := ih (fun name hname => henter name (List.mem_cons_of_mem _ hname)) hextra
    rw [lineageFrom_leave, lineageFrom_leave, List.filter_cons, List.filter_cons, hrest]
  | case3 seen name rest found ih =>
    rw [lineageFrom_unknown found, lineageFrom_unknown found]
    exact ih (fun name hname => henter name (List.mem_cons_of_mem _ hname)) hextra
  | case4 seen name rest d found mem ih =>
    rw [lineageFrom_seen found mem, lineageFrom_seen found (List.mem_append_right _ mem)]
    exact ih (fun name hname => henter name (List.mem_cons_of_mem _ hname)) hextra
  | case5 seen name rest d found new ih =>
    have hd : R d := henter name List.mem_cons_self d found
    have hnext : ∀ name, Walk.enter name ∈ d.interfaces.map .enter ++ .leave d :: rest →
        ∀ i, s.interface? name = some i → R i := by
      intro other hother i hi
      rcases List.mem_append.mp hother with hmem | hmem
      · obtain ⟨parent, hparent, heq⟩ := List.mem_map.mp hmem
        obtain rfl : parent = other := Walk.enter.inj heq
        exact hR d hd i ⟨parent, hparent, hi⟩
      · refine henter other (List.mem_cons_of_mem _ ?_) i hi
        exact (List.mem_cons.mp hmem).resolve_left Walk.noConfusion
    have hgrown : ∀ name ∈ extra, ∀ i, s.interface? name = some i → R i → K i = false ∧
        ∀ parent ∈ i.interfaces, (s.interface? parent).isSome = true →
          parent ∈ extra ∨ parent ∈ d.name :: seen := by
      intro other hother i hi hRi
      obtain ⟨hK, hparents⟩ := hextra other hother i hi hRi
      refine ⟨hK, fun parent hparent hsome => ?_⟩
      exact (hparents parent hparent hsome).imp_right (List.mem_cons_of_mem _)
    have hih := ih hnext hgrown
    rw [lineageFrom_new found new]
    by_cases hin : d.name ∈ extra
    · -- Entering it adds nothing that counts: all that it lists is in `extra` or was seen.
      obtain ⟨hK, hparents⟩ := hextra d.name hin d (interface?_name found) hd
      have hskip : ∀ parent ∈ d.interfaces, (s.interface? parent).isSome = true →
          parent ∈ extra ++ d.name :: seen := by
        intro parent hparent hsome
        refine List.mem_append.mpr ((hparents parent hparent hsome).imp_right ?_)
        exact List.mem_cons_of_mem _
      have hsame : ∀ name, name ∈ extra ++ d.name :: seen ↔ name ∈ extra ++ seen := by
        intro name
        simp only [List.mem_append, List.mem_cons]
        constructor
        · rintro (hmem | rfl | hmem)
          · exact .inl hmem
          · exact .inl hin
          · exact .inr hmem
        · exact Or.imp_right .inr
      rw [← hih, lineageFrom_skip hskip, lineageFrom_leave, List.filter_cons_of_neg (by simp [hK]),
        lineageFrom_congr hsame, lineageFrom_seen found (List.mem_append_left _ hin)]
    · have hnew : d.name ∉ extra ++ seen := fun hmem =>
        (List.mem_append.mp hmem).elim hin new
      rw [lineageFrom_new found hnew, ← hih]
      refine congrArg _ (lineageFrom_congr fun name => ?_)
      simp only [List.mem_append, List.mem_cons]
      exact or_left_comm

/-- No interface that counts is behind two of the names. -/
def Apart (s : Scope) (K : RecordDeclaration → Bool) (a b : String) : Prop :=
  ∀ i ∈ s.lineage a, i ∈ s.lineage b → K i = false

/-- The names of what is not behind one branch only: of the interface at the top, and of all that is behind
the other interfaces that it lists. -/
def elsewhere (s : Scope) (top : RecordDeclaration) (others : List String) : List String :=
  top.name :: (others.flatMap s.lineage).map RecordDeclaration.name

section Branches

variable {K : RecordDeclaration → Bool} {top : RecordDeclaration} {others : List String}

theorem mem_elsewhere_iff : name ∈ s.elsewhere top others ↔
    name = top.name ∨ ∃ other ∈ others, ∃ i ∈ s.lineage other, i.name = name := by
  simp only [elsewhere, List.mem_cons, List.mem_map, List.mem_flatMap]
  constructor
  · rintro (rfl | ⟨i, ⟨other, hother, hi⟩, rfl⟩)
    · exact .inl rfl
    · exact .inr ⟨other, hother, i, hi, rfl⟩
  · rintro (rfl | ⟨other, hother, i, hi, rfl⟩)
    · exact .inl rfl
    · exact .inr ⟨i, ⟨other, hother, hi⟩, rfl⟩

theorem elsewhere_mono {more : List String} (h : others ⊆ more) :
    s.elsewhere top others ⊆ s.elsewhere top more := by
  intro name hname
  rw [mem_elsewhere_iff] at hname ⊢
  exact hname.imp_right fun ⟨other, hother, hi⟩ => ⟨other, h hother, hi⟩

theorem mem_elsewhere_of_extends {other : String} (hother : other ∈ others) (hi : i ∈ s.lineage other)
    (h : s.Extends i j) : j.name ∈ s.elsewhere top others :=
  mem_elsewhere_iff.mpr (.inr ⟨other, hother, j, mem_lineage_of_extends hi h, rfl⟩)

/-- What an interface leads to is itself or behind one of the other interfaces that it lists. -/
theorem mem_lineage_cases (htop : s.interface? top.name = some top) (h : i ∈ s.lineage top.name) :
    i = top ∨ ∃ name ∈ top.interfaces, name ≠ top.name ∧ i ∈ s.lineage name := by
  refine forall_lineageFrom (s := s) (P := fun i => i = top ∨ ∃ name ∈ top.interfaces,
    name ≠ top.name ∧ i ∈ s.lineage name) ?_ ?_ (by simp) i h
  · rintro i hi parent hparent j hj
    rcases hi with rfl | ⟨name, hname, hne, hi⟩
    · by_cases heq : parent = i.name
      · rw [heq, htop] at hj
        exact .inl (Option.some.inj hj).symm
      · exact .inr ⟨parent, hparent, heq, mem_lineage_self hj⟩
    · exact .inr ⟨name, hname, hne, mem_lineage_of_extends hi ⟨parent, hparent, hj⟩⟩
  · intro other hother j hj
    obtain rfl : other = top.name := by simpa using hother
    rw [htop] at hj
    exact .inl (Option.some.inj hj).symm

variable (htop : s.interface? top.name = some top) (hK : K top = false)
  (hlist : ∀ other ∈ top.interfaces, other = name ∨ other ∈ others)
  (hapart : ∀ other ∈ others, s.Apart K name other)

include htop hK hlist hapart

/-- A branch with something that counts behind it is not behind another branch, and does not lead back to
the top. -/
theorem notMem_elsewhere (hj : j ∈ s.lineage name) (hcounts : K j = true) :
    name ∉ s.elsewhere top others := by
  intro hmem
  rcases mem_elsewhere_iff.mp hmem with rfl | ⟨other, hother, i, hi, rfl⟩
  · rcases mem_lineage_cases htop hj with rfl | ⟨other, hother, hne, hj'⟩
    · rw [hK] at hcounts
      cases hcounts
    · rw [hapart other ((hlist other hother).resolve_left hne) j hj hj'] at hcounts
      cases hcounts
  · rw [hapart other hother j hj (mem_lineage_trans hi hj)] at hcounts
    cases hcounts

/-- What is behind a branch and elsewhere does not count, and neither does it lead to anything that is only
behind the branch. -/
theorem idle_of_mem_elsewhere {n : String} (hn : n ∈ s.elsewhere top others)
    (hi : s.interface? n = some i) (hbranch : i ∈ s.lineage name) : K i = false ∧
      ∀ parent ∈ i.interfaces, (s.interface? parent).isSome = true →
        parent ∈ s.elsewhere top others ∨ parent = name := by
  rcases mem_elsewhere_iff.mp hn with rfl | ⟨other, hother, j, hj, rfl⟩
  · obtain rfl : top = i := Option.some.inj (htop.symm.trans hi)
    refine ⟨hK, fun parent hparent hsome => ?_⟩
    obtain ⟨p, hp⟩ := Option.isSome_iff_exists.mp hsome
    rcases hlist parent hparent with rfl | hother
    · exact .inr rfl
    · exact .inl (mem_elsewhere_iff.mpr
        (.inr ⟨parent, hother, p, mem_lineage_self hp, (name_of_interface? hp).1⟩))
  · obtain rfl : j = i := Option.some.inj ((interface?_of_mem_lineage hj).symm.trans hi)
    refine ⟨hapart other hother j hbranch hj, fun parent hparent hsome => ?_⟩
    obtain ⟨p, hp⟩ := Option.isSome_iff_exists.mp hsome
    have hmem : p.name ∈ s.elsewhere top others :=
      mem_elsewhere_of_extends hother hj ⟨parent, hparent, hp⟩
    exact .inl ((name_of_interface? hp).1 ▸ hmem)

/-- A branch of the walk finds what counts as it would alone, if all that was seen before is elsewhere
too. -/
theorem filter_branch (hseen : seen ⊆ s.elsewhere top others) :
    (s.lineageFrom [.enter name] seen).filter K = (s.lineage name).filter K := by
  by_cases hcounts : ∃ j ∈ s.lineage name, K j = true
  · obtain ⟨j, hj, hKj⟩ := hcounts
    have hfresh := notMem_elsewhere htop hK hlist hapart hj hKj
    obtain ⟨i, hi, -⟩ := mem_lineage_iff.mp hj
    have hname : i.name = name := (name_of_interface? hi).1
    let steps : List Walk := i.interfaces.map .enter ++ [.leave i]
    have henter : ∀ n, .enter n ∈ steps → ∀ k, s.interface? n = some k → k ∈ s.lineage name := by
      intro n hn k hk
      rcases List.mem_append.mp hn with hn | hn
      · obtain ⟨parent, hparent, heq⟩ := List.mem_map.mp hn
        obtain rfl : parent = n := Walk.enter.inj heq
        exact mem_lineage_of_extends (mem_lineage_self hi) ⟨parent, hparent, hk⟩
      · simp at hn
    have hsteps : ∀ later : List String, name ∈ later →
        (s.lineageFrom steps (s.elsewhere top others ++ later)).filter K =
          (s.lineageFrom steps later).filter K := by
      intro later hlater
      refine filter_lineageFrom_append (fun _ hk _ hextends => mem_lineage_of_extends hk hextends)
        henter fun n hn k hk hbranch => ?_
      obtain ⟨hKk, hparents⟩ := idle_of_mem_elsewhere htop hK hlist hapart hn hk hbranch
      refine ⟨hKk, fun parent hparent hsome => ?_⟩
      rcases hparents parent hparent hsome with hmem | rfl
      · exact .inl hmem
      · exact .inr hlater
    rw [lineage, lineageFrom_new hi fun hmem => hfresh (hseen (hname ▸ hmem)),
      lineageFrom_new hi List.not_mem_nil, hname, ← hsteps _ List.mem_cons_self,
      ← hsteps _ List.mem_cons_self]
    refine congrArg _ (lineageFrom_congr fun n => ?_)
    simp only [List.mem_append, List.mem_cons, List.not_mem_nil, or_false]
    constructor
    · rintro (hmem | rfl | hmem)
      · exact .inl hmem
      · exact .inr rfl
      · exact .inl (hseen hmem)
    · exact Or.imp_right .inl
  · have hnone : ∀ j ∈ s.lineage name, ¬ K j = true := fun j hj hKj => hcounts ⟨j, hj, hKj⟩
    rw [List.filter_eq_nil_iff.mpr hnone, List.filter_eq_nil_iff.mpr]
    exact fun j hj => hnone j (mem_lineage_of_mem_lineageFrom hj)

omit hlist hapart

/-- Where no interface that counts is behind two of the interfaces that an interface lists, one walk finds
what counts in the order in which a walk for each of them does. -/
theorem filter_lineage_eq (hapart : top.interfaces.Pairwise (s.Apart K)) :
    (s.lineage top.name).filter K = (top.interfaces.flatMap s.lineage).filter K := by
  have hall : ∀ (after before : List String) (seen : List String),
      top.interfaces = before ++ after → seen ⊆ s.elsewhere top before →
      (s.lineageFrom (after.map .enter) seen).filter K = (after.flatMap s.lineage).filter K := by
    intro after
    induction after with
    | nil => simp
    | cons name after ih =>
      intro before seen hlist hseen
      have hpairs := hapart
      rw [hlist, List.pairwise_append, List.pairwise_cons] at hpairs
      obtain ⟨-, ⟨hafter, -⟩, hbefore⟩ := hpairs
      have hothers : ∀ other ∈ top.interfaces, other = name ∨ other ∈ before ++ after := by
        simp only [hlist, List.mem_append, List.mem_cons]
        exact fun other => or_left_comm.mp
      have hplace : ∀ other ∈ before ++ after, s.Apart K name other := by
        intro other hother
        rcases List.mem_append.mp hother with hother | hother
        · exact fun i hi hi' => hbefore other hother name List.mem_cons_self i hi' hi
        · exact hafter other hother
      have hfirst := filter_branch htop hK hothers hplace
        fun n hn => elsewhere_mono (List.subset_append_left before after) (hseen hn)
      have hleave : ∀ i, Walk.leave i ∈ [Walk.enter name] → i.name ∈ seen := by simp
      rw [List.map_cons, ← List.singleton_append, lineageFrom_append hleave, List.filter_append, hfirst,
        List.flatMap_cons, List.filter_append]
      congr 1
      refine ih (before ++ [name]) _ (by rw [hlist, List.append_assoc]; rfl) fun n hn => ?_
      rcases List.mem_append.mp hn with hn | hn
      · obtain ⟨j, hj, rfl⟩ := List.mem_map.mp hn
        exact mem_elsewhere_iff.mpr
          (.inr ⟨name, by simp, j, mem_lineage_of_mem_lineageFrom hj, rfl⟩)
      · exact elsewhere_mono (List.subset_append_left before [name]) (hseen hn)
  have hwalk : s.lineage top.name = s.lineageFrom (top.interfaces.map .enter) [top.name] ++ [top] := by
    rw [lineage, lineageFrom_new htop List.not_mem_nil, lineageFrom_append (by simp), lineageFrom_leave,
      lineageFrom_nil]
  have htops : [top.name] ⊆ s.elsewhere top [] := by simp [elsewhere]
  rw [hwalk, List.filter_append, hall top.interfaces [] [top.name] rfl htops]
  simp [hK]

end Branches

end CheckedModels.Scope
