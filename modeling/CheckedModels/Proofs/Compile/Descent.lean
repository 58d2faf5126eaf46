import CheckedModels.Proofs.Compile.Tracking

/-! The recursive compilation goes along with the survey: every part of it succeeds, keeps the
invariant, and registers what the survey reaches, in the same order. -/
namespace CheckedModels

/-- A field that asks for a declaration stands for what that declaration stands for. -/
theorem Field.resolve?_of_request? {f : Field} {name : String} {kind : DeclarationKind}
    (h : f.request? = some (name, kind)) (named : String → DeclarationKind → Option Descriptor) :
    f.resolve? named = (named name kind).map fun base => f.type.wrap base true := by
  have hbase : f.base? named = named name kind := by
    unfold base?
    rw [h]
    unfold request? at h
    cases hk : f.kind <;> simp_all [ReferencedKind.declared?]
  rw [resolve?, hbase]

namespace Workshop

/-- The run of `x` from `w` succeeds, in a state that tracks `v`. -/
def Leads {α : Type} (s : Scope) (config : Config) (under : List String) (w : Workshop) (x : Build α)
    (v : Survey) (post : α → Workshop → Prop) : Prop :=
  ∃ a w', x w = .ok (a, w') ∧ w.names <+: w'.names ∧ w'.Tracks s config under v ∧ post a w'

namespace Leads

variable {α β σ τ ι : Type} {s : Scope} {config : Config} {under : List String} {w : Workshop}
variable {v v' : Survey}

theorem pure {post : α → Workshop → Prop} (h : w.Tracks s config under v) {a : α} (ha : post a w) :
    Leads s config under w (pure a) v post := ⟨a, w, rfl, List.prefix_rfl, h, ha⟩

theorem bind {x : Build α} {f : α → Build β} {mid : α → Workshop → Prop}
    {post : β → Workshop → Prop} (hx : Leads s config under w x v mid)
    (hf : ∀ a w', w.names <+: w'.names → w'.Tracks s config under v → mid a w' →
      Leads s config under w' (f a) v' post) :
    Leads s config under w (x >>= f) v' post := by
  obtain ⟨a, w₁, hrun, hle, htracks, hmid⟩ := hx
  obtain ⟨b, w₂, hnext, hle', htracks', hpost⟩ := hf a w₁ hle htracks hmid
  refine ⟨b, w₂, ?_, hle.trans hle', htracks', hpost⟩
  change (x w >>= fun p => f p.1 p.2) = _
  rw [hrun]
  exact hnext

theorem imp {x : Build α} {mid post : α → Workshop → Prop} (hx : Leads s config under w x v mid)
    (h : ∀ a w', w.names <+: w'.names → mid a w' → post a w') : Leads s config under w x v post := by
  obtain ⟨a, w', hrun, hle, htracks, hmid⟩ := hx
  exact ⟨a, w', hrun, hle, htracks, h a w' hle hmid⟩

theorem discard {x : Build α} {post : α → Workshop → Prop} (hx : Leads s config under w x v post) :
    Leads s config under w (discard x) v fun _ _ => True := by
  obtain ⟨a, w', hrun, hle, htracks, -⟩ := hx
  refine ⟨(), w', ?_, hle, htracks, trivial⟩
  change (x w >>= fun p => Except.ok ((), p.2)) = _
  rw [hrun]
  rfl

theorem remark (h : w.Tracks s config under v) (n : Note) :
    Leads s config under w (Build.remark n) (v.note n) fun _ w' => w.names = w'.names :=
  ⟨(), _, rfl, List.prefix_rfl, h.remark n, rfl⟩

/-- A loop of the compilation beside a loop of the survey. `R` relates what the two have gathered; no
more than `depth` names are ever left to reach. -/
theorem foldlM {f : σ → ι → Build σ} {g : τ → ι → τ} {t : ι → List Task}
    {R : τ → σ → Workshop → Survey → Prop} {depth : Nat} (items : List ι)
    (step : ∀ i ∈ items, ∀ c a w v, w.Tracks s config under v →
      unseen s.declarations.names v.names ≤ depth → R c a w v →
      Leads s config under w (f a i) (Survey.run s (t i) v)
        fun a' w' => R (g c i) a' w' (Survey.run s (t i) v))
    {c : τ} {a : σ} (hw : w.Tracks s config under v)
    (hd : unseen s.declarations.names v.names ≤ depth) (hr : R c a w v) :
    Leads s config under w (items.foldlM f a) (Survey.run s (items.flatMap t) v)
      fun a' w' => R (items.foldl g c) a' w' (Survey.run s (items.flatMap t) v) := by
  induction items generalizing c a w v with
  | nil =>
    rw [List.flatMap_nil, Survey.run_nil]
    exact Leads.pure hw hr
  | cons i rest ih =>
    rw [List.flatMap_cons, Survey.run_append, List.foldlM_cons]
    refine (step i List.mem_cons_self c a w v hw hd hr).bind fun a' w' _ htracks hr' => ?_
    have hle : unseen s.declarations.names (Survey.run s (t i) v).names ≤ depth :=
      Nat.le_trans (unseen_le (Survey.names_subset (Survey.prefix_run (t i) v))) hd
    exact ih (fun j hj => step j (List.mem_cons_of_mem _ hj)) htracks hle hr'

end Leads

end Workshop

namespace Scope

open Workshop

/-- What reaching a name within a category comes to: the key that is registered under it, if there is
such a declaration. -/
def Answers (s : Scope) (kind : DeclarationKind) (name : String) (answer : Option String)
    (w : Workshop) : Prop :=
  match s.declarations.findKind? kind name with
  | none => answer = none
  | some _ => ∃ key, answer = some key ∧ w.names.lookup name = some key

/-- `reach` does what the survey does for the same name, as long as at most `depth` names are left. -/
def Follows (s : Scope) (config : Config) (depth : Nat)
    (reach : DeclarationKind → String → Build (Option String)) : Prop :=
  ∀ {under : List String} {w : Workshop} {v : Survey} (kind : DeclarationKind) (name : String),
    w.Tracks s config under v → unseen s.declarations.names v.names ≤ depth →
    Leads s config under w (reach kind name) (Survey.run s [.reach kind name] v) (s.Answers kind name)

variable {s : Scope} {config : Config} {under : List String} {depth : Nat}
variable {reach : DeclarationKind → String → Build (Option String)}
variable {w : Workshop} {v : Survey}

theorem named?_eq (s : Scope) (name : String) (kind : DeclarationKind) :
    s.named? name kind = if s.follows kind && (s.declarations.findKind? kind name).isSome
      then some (.named name) else none := rfl

/-- A field that cannot be resolved asks for nothing that there is. -/
theorem leads_ask (hreach : s.Follows config depth reach) (hw : w.Tracks s config under v)
    (hd : unseen s.declarations.names v.names ≤ depth) (f : Field) :
    Leads s config under w (s.ask reach f)
      (if (s.resolve? f).isNone then v else Survey.run s (s.fieldTask f) v)
      fun asked w' => ∀ name kind, f.request? = some (name, kind) →
        Option.Rel (Descriptor.Links w'.names) (s.named? name kind) (asked.map .named) := by
  unfold ask fieldTask
  cases hr : f.request? with
  | none =>
    have htarget : (if (s.resolve? f).isNone then v else Survey.run s
        (if (s.resolve? f).isNone then [.remark (.droppedField f.name f.typeName)] else []) v) = v := by
      split
      · rfl
      · exact Survey.run_nil
    simp only [Option.map_none, Option.toList_none, htarget]
    exact Leads.pure hw (by simp)
  | some r =>
    obtain ⟨name, kind⟩ := r
    have hresolve : s.resolve? f = (s.named? name kind).map fun base => f.type.wrap base true :=
      f.resolve?_of_request? hr s.named?
    by_cases hf : s.follows kind = true
    · have hlead := hreach kind name hw hd
      cases hfind : s.declarations.findKind? kind name with
      | none =>
        have hn : s.named? name kind = none := by simp [named?_eq, hfind]
        rw [Survey.run_reach_none hfind, Survey.run_nil] at hlead
        simp only [hf, if_true, hresolve, hn, Option.map_none, Option.isNone_none]
        refine hlead.imp fun a w' _ ha other k heq => ?_
        obtain ⟨rfl, rfl⟩ := Prod.mk.inj (Option.some.inj heq)
        simp only [Answers, hfind] at ha
        rw [hn, ha]
        exact .none
      | some d =>
        have hn : s.named? name kind = some (.named name) := by simp [named?_eq, hfind, hf]
        simp only [hf, if_true, hresolve, hn, Option.map_some, Option.isNone_some,
          Option.toList_some, Bool.false_eq_true, if_false]
        refine hlead.imp fun a w' _ ha other k heq => ?_
        obtain ⟨rfl, rfl⟩ := Prod.mk.inj (Option.some.inj heq)
        simp only [Answers, hfind] at ha
        obtain ⟨key, rfl, hkey⟩ := ha
        rw [hn]
        exact .some (.named hkey)
    · have hn : s.named? name kind = none := by simp [named?_eq, hf]
      simp only [hf, hresolve, hn, Option.map_none, Option.isNone_none, if_true]
      refine Leads.pure hw fun other k heq => ?_
      obtain ⟨rfl, rfl⟩ := Prod.mk.inj (Option.some.inj heq)
      rw [hn]
      exact .none

theorem leads_resolveField (hreach : s.Follows config depth reach) (hw : w.Tracks s config under v)
    (hd : unseen s.declarations.names v.names ≤ depth) (f : Field) :
    Leads s config under w (s.resolveField reach f) (Survey.run s (s.fieldTask f) v)
      fun a w' => Option.Rel (Descriptor.Links w'.names) (s.resolve? f) a := by
  unfold resolveField
  refine (leads_ask hreach hw hd f).bind fun asked w' _ htracks hasked => ?_
  have hrel : Option.Rel (Descriptor.Links w'.names) (s.resolve? f)
      (f.resolve? fun _ _ => asked.map .named) := Field.links_resolve? hasked
  generalize f.resolve? (fun _ _ => asked.map .named) = made at hrel
  cases hres : s.resolve? f with
  | none =>
    rw [hres] at hrel htracks
    cases hrel
    simp only [Option.isNone_none, if_true] at htracks
    simp only [fieldTask, hres, Option.isNone_none, if_true]
    rw [Survey.run_remark, Survey.run_nil]
    refine (Leads.remark htracks _).bind fun _ _ _ htracks' _ => ?_
    exact Leads.pure htracks' .none
  | some d =>
    rw [hres] at hrel htracks
    cases hrel with
    | some hlinks => exact Leads.pure (by simpa using htracks) (.some hlinks)

theorem leads_describe (hreach : s.Follows config depth reach) (hw : w.Tracks s config under v)
    (hd : unseen s.declarations.names v.names ≤ depth) {c a : Composition}
    (hc : c.Links w.names a) (f : Field) :
    Leads s config under w (s.describe reach a f) (Survey.run s (s.ownTasks f) v)
      fun a' w' => (s.addField c f).Links w'.names a' := by
  unfold describe ownTasks addField
  by_cases hf : f.isIdentifierCandidate = true
  · rw [if_pos hf, if_pos hf, Survey.run_nil, c.add_of_candidate hf _ none]
    exact Leads.pure hw (hc.add f .none)
  · rw [if_neg hf, if_neg hf]
    refine (leads_resolveField hreach hw hd f).bind fun resolved w' hle htracks hr => ?_
    exact Leads.pure htracks ((hc.mono hle).add f hr)

theorem leads_inherit (hreach : s.Follows config depth reach) (hw : w.Tracks s config under v)
    (hd : unseen s.declarations.names v.names ≤ depth) {own made : Entries Descriptor}
    (hown : Entries.Related (Descriptor.Links w.names) own made) {c a : Composition}
    (hc : c.Links w.names a) (f : Field) :
    Leads s config under w (s.inherit reach made a f)
      (Survey.run s (if f.name ∈ Entries.keys own then [] else s.ownTasks f) v)
      fun a' w' => (s.addInherited own c f).Links w'.names a' := by
  unfold inherit addInherited
  have hlook := hown.lookup f.name
  generalize made.lookup f.name = found at hlook
  cases hl : own.lookup f.name with
  | none =>
    rw [hl] at hlook
    cases hlook
    rw [if_neg (Entries.lookup_eq_none_iff.mp hl)]
    exact leads_describe hreach hw hd hc f
  | some d =>
    rw [hl] at hlook
    cases hlook with
    | some hlinks =>
      rw [if_pos (Entries.mem_keys_of_mem (Entries.mem_of_lookup hl)), Survey.run_nil]
      exact Leads.pure hw (hc.put f.name hlinks)

/-- `d` is the model that implements the interface. -/
theorem leads_implement (hreach : s.Follows config depth reach) (hw : w.Tracks s config under v)
    (hd : unseen s.declarations.names v.names ≤ depth) (d : Declaration)
    {own made : Entries Descriptor}
    (hnames : ∀ key, key ∈ Entries.keys own ↔ key ∈ (d.fields.filter s.keeps).map Field.name)
    (hown : Entries.Related (Descriptor.Links w.names) own made) {c a : Composition}
    (hc : c.Links w.names a) (name : String) :
    Leads s config under w (s.implement reach d.name made a name)
      (Survey.run s (s.interfaceTasks d name) v)
      fun a' w' => (s.addInterface own c name).Links w'.names a' := by
  unfold implement interfaceTasks addInterface
  cases hi : s.interface? name with
  | none =>
    simp only [Option.isNone_none, if_true, Option.isSome_none, Bool.false_eq_true, if_false]
    rw [Survey.run_remark, Survey.run_nil]
    refine (Leads.remark hw _).bind fun _ w' hle htracks _ => ?_
    exact Leads.pure htracks (hc.mono hle)
  | some i =>
    simp only [Option.isNone_some, Bool.false_eq_true, if_false, Option.isSome_some, if_true]
    rw [Survey.run_single_cons]
    refine (hreach .interface name hw hd).bind fun _ w' hle htracks _ => ?_
    have htasks : ∀ e ∈ s.mergedFields name,
        (if e.1 ∈ (d.fields.filter s.keeps).map Field.name then [] else s.ownTasks e.2) =
          if e.2.name ∈ Entries.keys own then [] else s.ownTasks e.2 := by
      intro e he
      rw [s.name_of_mem_mergedFields he]
      simp only [hnames]
    rw [List.flatMap_congr htasks]
    have hd' : unseen s.declarations.names (Survey.run s [.reach .interface name] v).names ≤ depth :=
      Nat.le_trans (unseen_le (Survey.names_subset (Survey.prefix_run _ v))) hd
    refine (Leads.foldlM (R := fun (c a : Composition) (w : Workshop) _ =>
        Entries.Related (Descriptor.Links w.names) own made ∧ c.Links w.names a)
      (s.mergedFields name) ?_ htracks hd' ⟨?_, hc.mono hle⟩).imp fun _ _ _ h => h.2
    · intro e _ c a w v hw hd hr
      refine (leads_inherit hreach hw hd hr.1 hr.2 e.2).imp fun a' w' hle hlinks => ?_
      exact ⟨hr.1.imp fun _ _ hl => hl.mono hle, hlinks⟩
    · exact hown.imp fun _ _ hl => hl.mono hle

theorem leads_resolveProperties (hreach : s.Follows config depth reach)
    (hw : w.Tracks s config under v) (hd : unseen s.declarations.names v.names ≤ depth)
    (choice : IdentifierChoice) (d : Declaration) :
    Leads s config under w (s.resolveProperties reach choice d)
      (Survey.run s (d.fields.flatMap s.ownTasks ++ d.interfaces.flatMap (s.interfaceTasks d)) v)
      fun ps w' => Entries.Related (Descriptor.Links w'.names) (s.compose choice d) ps := by
  unfold resolveProperties
  rw [Survey.run_append]
  have hown := Leads.foldlM (R := fun (c a : Composition) (w : Workshop) _ => c.Links w.names a)
    d.fields (fun f _ _ _ _ _ hw hd hc => leads_describe hreach hw hd hc f)
    (c := ⟨⟨choice, none⟩, []⟩) (a := ⟨⟨choice, none⟩, []⟩) hw hd ⟨rfl, .nil⟩
  refine hown.bind fun own w₁ _ htracks hlinks => ?_
  have hd₁ : unseen s.declarations.names
      (Survey.run s (d.fields.flatMap s.ownTasks) v).names ≤ depth :=
    Nat.le_trans (unseen_le (Survey.names_subset (Survey.prefix_run _ v))) hd
  have hinherited := Leads.foldlM (R := fun (c a : Composition) (w : Workshop) _ =>
      Entries.Related (Descriptor.Links w.names) (s.ownProperties choice d.fields).properties
        own.properties ∧ c.Links w.names a)
    d.interfaces
    (fun name _ c a w v hw hd hr =>
      (leads_implement hreach hw hd d (fun _ => s.mem_keys_ownProperties) hr.1 hr.2 name).imp
        fun a' w' hle hc => ⟨hr.1.imp fun _ _ hl => hl.mono hle, hc⟩)
    (c := ⟨(s.ownProperties choice d.fields).claim, []⟩) (a := ⟨own.claim, []⟩) htracks hd₁
    ⟨hlinks.properties, hlinks.claim, .nil⟩
  refine hinherited.bind fun inherited w₂ _ htracks₂ hr => ?_
  exact Leads.pure htracks₂ (hr.2.properties.putAll hr.1)

/-- A member counts if it is an object and its name was not taken by something that is no model. -/
theorem leads_memberModel? (hreach : s.Follows config depth reach) (hw : w.Tracks s config under v)
    (hd : unseen s.declarations.names v.names ≤ depth) (member : String) :
    Leads s config under w (memberModel? reach member)
      (Survey.run s [.reach .object member] v)
      fun a w' => a = if (s.declarations.findKind? .object member).isSome &&
        (Survey.run s [.reach .object member] v).hasModel member
        then w'.names.lookup member else none := by
  unfold memberModel?
  refine (hreach .object member hw hd).bind fun answer w' _ htracks hanswer => ?_
  cases hfind : s.declarations.findKind? .object member with
  | none =>
    simp only [Answers, hfind] at hanswer
    subst hanswer
    exact Leads.pure htracks (by simp)
  | some d =>
    simp only [Answers, hfind] at hanswer
    obtain ⟨key, rfl, hkey⟩ := hanswer
    refine ⟨_, w', rfl, List.prefix_rfl, htracks, ?_⟩
    simp [hkey, htracks.isSome_model? hkey]

/-- The first members of a union and the alternatives that they have given. -/
structure Gathers (s : Scope) (u : UnionDeclaration) (done : List String)
    (alternatives : List Descriptor) (w : Workshop) (v : Survey) : Prop where
  reached : ∀ m ∈ done, (s.declarations.findKind? .object m).isSome → m ∈ v.names
  links : List.Forall₂ (Descriptor.Links w.names) (v.alternatives s { u with members := done })
    alternatives

namespace Gathers

variable {u : UnionDeclaration} {done : List String} {alternatives : List Descriptor} {member : String}

theorem later (h : s.Gathers u done alternatives w v) {w' : Workshop} {v' : Survey}
    (hw : w.names <+: w'.names) (hv : v.reached <+: v'.reached) :
    s.Gathers u done alternatives w' v' := by
  refine ⟨fun m hm ho => Survey.names_subset hv (h.reached m hm ho), ?_⟩
  rw [Survey.alternatives_later hv h.reached]
  exact h.links.imp fun _ _ hl => hl.mono hw

theorem concat (h : s.Gathers u done alternatives w v)
    (hm : (s.declarations.findKind? .object member).isSome → member ∈ v.names)
    {more : List Descriptor} (hmore : List.Forall₂ (Descriptor.Links w.names)
      (if (s.declarations.findKind? .object member).isSome && v.hasModel member then [.named member]
        else []) more) :
    s.Gathers u (done ++ [member]) (alternatives ++ more) w v := by
  constructor
  · intro m hmem ho
    rcases List.mem_append.mp hmem with hmem | hmem
    · exact h.reached m hmem ho
    · obtain rfl : m = member := by simpa using hmem
      exact hm ho
  · rw [Survey.alternatives_concat]
    exact List.rel_append h.links hmore

theorem skip (h : s.Gathers u done alternatives w v)
    (hm : (s.declarations.findKind? .object member).isSome → member ∈ v.names)
    (hskip : ((s.declarations.findKind? .object member).isSome && v.hasModel member) = false) :
    s.Gathers u (done ++ [member]) alternatives w v := by
  have hnone : s.Gathers u (done ++ [member]) (alternatives ++ []) w v := by
    apply h.concat hm
    rw [hskip]
    exact .nil
  rwa [List.append_nil] at hnone

end Gathers

/-- `done` holds the members of the union that come before this one. -/
theorem leads_addMember (hreach : s.Follows config depth reach) (hw : w.Tracks s config under v)
    (hd : unseen s.declarations.names v.names ≤ depth) {u : UnionDeclaration} {done : List String}
    {alternatives : List Descriptor} (h : s.Gathers u done alternatives w v) (member : String) :
    Leads s config under w (addMember reach u.name alternatives member)
      (Survey.run s (s.memberTasks u.name member) v) fun alternatives' w' =>
        s.Gathers u (done ++ [member]) alternatives' w'
          (Survey.run s (s.memberTasks u.name member) v) := by
  unfold addMember memberTasks
  have hlead := leads_memberModel? hreach hw hd member
  have hle : v.reached <+: (Survey.run s [.reach .object member] v).reached := Survey.prefix_run _ v
  cases hfind : s.declarations.findKind? .object member with
  | none =>
    simp only [hfind, Option.isSome_none, Bool.false_and, Bool.false_eq_true, if_false] at hlead ⊢
    rw [Survey.run_reach_none hfind, Survey.run_nil] at hlead
    rw [Survey.run_remark, Survey.run_nil]
    refine hlead.bind fun answer w₁ hw₁ htracks hnone => ?_
    subst hnone
    refine (Leads.remark htracks _).bind fun _ w₂ hw₂ htracks₂ _ => ?_
    have hlater : s.Gathers u done alternatives w₂ (v.note (.skippedMember member u.name)) :=
      h.later (hw₁.trans hw₂) List.prefix_rfl
    exact Leads.pure htracks₂ (hlater.skip (by simp [hfind]) (by simp [hfind]))
  | some d =>
    simp only [hfind, Option.isSome_some, Bool.true_and, if_true] at hlead ⊢
    have hreached := Survey.mem_names_run_reach hfind v
    rw [Survey.run_single_cons, Survey.run_member, Survey.run_nil]
    generalize Survey.run s [.reach .object member] v = v₁ at hlead hle hreached
    refine hlead.bind fun answer w₁ hw₁ htracks hanswer => ?_
    have hlater := h.later hw₁ hle
    cases hmodel : v₁.hasModel member with
    | false =>
      simp only [hmodel, Bool.false_eq_true, if_false] at hanswer ⊢
      subst hanswer
      refine (Leads.remark htracks _).bind fun _ w₂ hw₂ htracks₂ _ => ?_
      have hnote : s.Gathers u done alternatives w₂ (v₁.note (.skippedMember member u.name)) :=
        hlater.later hw₂ List.prefix_rfl
      exact Leads.pure htracks₂ (hnote.skip (fun _ => hreached) (by simp [hmodel]))
    | true =>
      simp only [hmodel, if_true] at hanswer ⊢
      obtain ⟨key, hkey⟩ := Option.isSome_iff_exists.mp ((htracks.lookup_isSome member).mpr hreached)
      rw [hkey] at hanswer
      subst hanswer
      refine Leads.pure htracks (hlater.concat (fun _ => hreached) ?_)
      rw [hfind, hmodel]
      exact .cons (.named hkey) .nil

theorem leads_resolveMembers (hreach : s.Follows config depth reach)
    (hw : w.Tracks s config under v) (hd : unseen s.declarations.names v.names ≤ depth)
    (u : UnionDeclaration) :
    Leads s config under w (resolveMembers reach u)
      (Survey.run s (u.members.flatMap (s.memberTasks u.name)) v) fun alternatives w' =>
        s.Gathers u u.members alternatives w'
          (Survey.run s (u.members.flatMap (s.memberTasks u.name)) v) := by
  have hstart : s.Gathers u [] [] w v := ⟨by simp, .nil⟩
  have hloop := Leads.foldlM (R := s.Gathers u) (g := fun done m => done ++ [m]) u.members
    (fun m _ done alternatives w v hw hd h => leads_addMember hreach hw hd h m) hw hd hstart
  have hall : u.members.foldl (fun done m => done ++ [m]) [] = u.members := by
    rw [List.foldl_append_eq_append, List.nil_append, ← List.flatMap_def, List.flatMap_singleton']
  rwa [hall] at hloop

/-- A declaration that is registered, filled and finished: `fill` runs while it is open, and what it
gives makes the finished definition. -/
theorem leads_open {γ : Type} {fill : Build γ} {finish : String → γ → Build Unit} {v' : Survey}
    {post : γ → Workshop → Prop} (hw : w.Tracks s config under v) {d : Declaration}
    (hd : s.declarations.findKind? d.kind d.name = some d) (new : d.name ∉ v.names)
    (hle : (v.add d).reached <+: v'.reached)
    (hfill : ∀ w₁ : Workshop, w₁.Tracks s config (d.name :: under) (v.add d) →
      Leads s config (d.name :: under) w₁ fill v' post)
    (hfinish : ∀ key a (w₂ : Workshop), post a w₂ → w₂.made.find? key = some d.opened →
      ∃ made, v'.Finished s config w₂.names d made ∧
        finish key a w₂ = .ok ((), { w₂ with made := w₂.made.replace key made })) :
    Leads s config under w
      (do let key ← Build.register d.name d.opened
          let a ← fill
          finish key a
          return key) v' fun key w' => w'.names.lookup d.name = some key := by
  obtain ⟨w₁, hreg, hle₁, hkey₁, htracks₁⟩ := hw.register hd new
  obtain ⟨a, w₂, hrun, hle₂, htracks₂, hpost⟩ := hfill w₁ htracks₁
  have hkey₂ := hle₂.lookup_eq_some hkey₁
  have hmem : (d.name, d) ∈ v'.reached :=
    hle.subset (List.mem_append_right _ (List.mem_singleton.mpr rfl))
  obtain ⟨key, made, hlook, hfind, hopen, -⟩ := htracks₂.kept _ hmem
  obtain rfl : key = w.made.freshKey d.name := Option.some.inj (hlook.symm.trans hkey₂)
  rw [hopen List.mem_cons_self] at hfind
  obtain ⟨done, hfinished, hfin⟩ := hfinish _ a w₂ hpost hfind
  have hnot : d.name ∉ under := fun hu => new (hw.underway hu)
  refine ⟨_, { w₂ with made := w₂.made.replace (w.made.freshKey d.name) done }, ?_,
    hle₁.trans hle₂, htracks₂.finish hnot hmem hkey₂ hfinished, hkey₂⟩
  change (Build.register d.name d.opened w >>= fun p => fill p.2 >>= fun q =>
    finish p.1 q.1 q.2 >>= fun r => Except.ok (p.1, r.2)) = _
  rw [hreg]
  change (fill w₁ >>= fun q => finish _ q.1 q.2 >>= fun r => Except.ok (_, r.2)) = _
  rw [hrun]
  change (finish _ a w₂ >>= fun r => Except.ok (_, r.2)) = _
  rw [hfin]
  rfl

/-- A new declaration is registered before what it refers to, and finished after it. -/
theorem leads_buildModel (hreach : s.Follows config depth reach) (hw : w.Tracks s config under v)
    {d : Declaration} (hm : d.isModel = true)
    (hd : s.declarations.findKind? d.kind d.name = some d) (new : d.name ∉ v.names)
    (hdepth : unseen s.declarations.names (v.add d).names ≤ depth) :
    Leads s config under w (s.buildModel reach (config.choice d.name) d)
      (Survey.run s (s.tasks d) (v.add d)) fun key w' => w'.names.lookup d.name = some key := by
  rw [tasks_of_isModel hm]
  unfold buildModel
  rw [← d.opened_of_isModel hm]
  refine leads_open hw hd new (Survey.prefix_run _ _)
    (fun w₁ htracks => leads_resolveProperties hreach htracks hdepth (config.choice d.name) d) ?_
  intro key ps w₂ hps hfind
  rw [d.opened_of_isModel hm] at hfind
  have hids : (Model.identifierKeys ps).length ≤ 1 := by
    rw [identifierKeys_eq_of_related hps]
    exact s.length_identifierKeys_compose _ d
  refine ⟨.model ⟨d.name, ps, true⟩, ⟨?_, ?_⟩, ?_⟩
  · rw [Survey.content_of_isModel hm]
    exact .model hps
  · intro m hmem
    rw [d.members_of_isModel hm] at hmem
    cases hmem
  · unfold Build.finishModel
    simp only [hfind, Model.define, if_neg (Nat.not_lt.mpr hids)]
    rfl

theorem leads_buildUnion (hreach : s.Follows config depth reach) (hw : w.Tracks s config under v)
    {u : UnionDeclaration} (hd : s.declarations.findKind? .union u.name = some (.union u))
    (new : u.name ∉ v.names)
    (hdepth : unseen s.declarations.names (v.add (.union u)).names ≤ depth) :
    Leads s config under w (buildUnion reach u)
      (Survey.run s (s.tasks (.union u)) (v.add (.union u)))
      fun key w' => w'.names.lookup u.name = some key := by
  refine leads_open (d := .union u) hw hd new (Survey.prefix_run _ _)
    (fun w₁ htracks => leads_resolveMembers hreach htracks hdepth u) ?_
  intro key alternatives w₂ hpost hfind
  refine ⟨.union ⟨some u.name, alternatives, true⟩, ⟨.union hpost.links, hpost.reached⟩, ?_⟩
  unfold Build.finishUnion
  rw [hfind]
  rfl

/-- What refers to nothing is complete as it is registered. -/
theorem leads_register (hw : w.Tracks s config under v) {d : Declaration}
    (hd : s.declarations.findKind? d.kind d.name = some d) (new : d.name ∉ v.names)
    (hfin : ∀ (names : Entries String) (v : Survey), v.Finished s config names d d.opened) :
    Leads s config under w (Build.register d.name d.opened) (v.add d)
      fun key w' => w'.names.lookup d.name = some key := by
  obtain ⟨w₁, hreg, hle, hkey, htracks⟩ := hw.register hd new
  have hmem : (d.name, d) ∈ (v.add d).reached := List.mem_append_right _ (List.mem_singleton.mpr rfl)
  exact ⟨_, w₁, hreg, hle, htracks.close hmem (hfin _ _), hkey⟩

theorem leads_make (hreach : s.Follows config depth reach) (hw : w.Tracks s config under v)
    {d : Declaration} (hd : s.declarations.findKind? d.kind d.name = some d) (new : d.name ∉ v.names)
    (hdepth : unseen s.declarations.names (v.add d).names ≤ depth) :
    Leads s config under w (s.make reach config d) (Survey.run s (s.tasks d) (v.add d))
      fun key w' => w'.names.lookup d.name = some key := by
  cases d with
  | union u => exact leads_buildUnion hreach hw hd new hdepth
  | enum e =>
    have htasks : s.tasks (.enum e) = [] := rfl
    rw [htasks, Survey.run_nil]
    exact leads_register hw hd new fun _ _ => ⟨.enumeration _, by simp [Declaration.members]⟩
  | scalar e =>
    have htasks : s.tasks (.scalar e) = [] := rfl
    rw [htasks, Survey.run_nil]
    exact leads_register hw hd new fun _ _ => ⟨.basic _, by simp [Declaration.members]⟩
  | object d | interface d | input d => exact leads_buildModel hreach hw rfl hd new hdepth

theorem leads_cached {make : Build String} (hw : w.Tracks s config under v) {d : Declaration}
    (hd : s.declarations.findKind? d.kind d.name = some d)
    (hmake : d.name ∉ v.names → Leads s config under w make (Survey.run s (s.tasks d) (v.add d))
      fun key w' => w'.names.lookup d.name = some key) :
    Leads s config under w (Build.cached d.name make) (Survey.run s [.reach d.kind d.name] v)
      fun key w' => w'.names.lookup d.name = some key := by
  cases hl : w.names.lookup d.name with
  | some key =>
    have seen : d.name ∈ v.names := (hw.lookup_isSome d.name).mp (by simp [hl])
    rw [Survey.run_reach_seen seen, Survey.run_nil]
    exact ⟨key, w, by rw [Build.cached, hl]; rfl, List.prefix_rfl, hw, hl⟩
  | none =>
    have new : d.name ∉ v.names := by
      rw [← hw.lookup_isSome, hl]
      simp
    obtain ⟨key, w', hrun, hle, htracks, hkey⟩ := hmake new
    rw [Survey.run_reach_new hd new, List.append_nil]
    exact ⟨key, w', by rw [Build.cached, hl]; exact hrun, hle, htracks, hkey⟩

theorem follows_reachWith {build : Declaration → Build String}
    (hbuild : ∀ {under : List String} {w : Workshop} {v : Survey} {d : Declaration},
      w.Tracks s config under v → unseen s.declarations.names v.names ≤ depth →
      s.declarations.findKind? d.kind d.name = some d →
      Leads s config under w (build d) (Survey.run s [.reach d.kind d.name] v)
        fun key w' => w'.names.lookup d.name = some key) :
    s.Follows config depth (s.reachWith build) := by
  intro under w v kind name hw hdepth
  unfold reachWith
  cases hfind : s.declarations.findKind? kind name with
  | none =>
    rw [Survey.run_reach_none hfind, Survey.run_nil]
    exact Leads.pure hw (by simp [Answers, hfind])
  | some d =>
    obtain ⟨-, rfl, rfl⟩ := Declarations.findKind?_mem hfind
    change Leads s config under w (build d >>= fun key => Pure.pure (some key)) _ _
    refine (hbuild hw hdepth hfind).bind fun key w' _ htracks hkey => ?_
    exact Leads.pure htracks (by simpa [Answers, hfind] using hkey)

/-- A declaration of a name that is registered already does nothing, at any depth. -/
theorem leads_seen (hw : w.Tracks s config under v) {d : Declaration} (hd : d.name ∈ v.names) :
    Leads s config under w (s.build config depth d) v fun _ _ => True := by
  obtain ⟨key, hkey⟩ := Option.isSome_iff_exists.mp ((hw.lookup_isSome d.name).mpr hd)
  refine ⟨key, w, ?_, List.prefix_rfl, hw, trivial⟩
  cases depth <;> rw [build, Build.cached, hkey] <;> rfl

/-- With as much depth as there are names left, a declaration is compiled the way the survey goes. -/
theorem leads_build (hw : w.Tracks s config under v)
    (hdepth : unseen s.declarations.names v.names ≤ depth) {d : Declaration}
    (hd : s.declarations.findKind? d.kind d.name = some d) :
    Leads s config under w (s.build config depth d) (Survey.run s [.reach d.kind d.name] v)
      fun key w' => w'.names.lookup d.name = some key := by
  induction depth generalizing under w v d with
  | zero =>
    refine leads_cached hw hd fun new => ?_
    have := Survey.unseen_add_lt hd new
    omega
  | succ depth ih =>
    refine leads_cached hw hd fun new => ?_
    have hlt := Survey.unseen_add_lt hd new
    have hreach : s.Follows config depth (s.reachWith (s.build config depth)) :=
      follows_reachWith fun hw hdepth hd => ih hw hdepth hd
    exact leads_make hreach hw hd new (by omega)

end Scope

end CheckedModels
