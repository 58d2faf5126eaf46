import Mathlib.Data.List.Forall2
import Mathlib.Data.List.Induction
import Mathlib.Data.List.Nodup
import CheckedModels.Entries

/-! Lookups in maps that keep their order, and maps whose values are related one by one. -/
namespace CheckedModels.Entries

variable {α β : Type}

theorem mem_keys_of_mem {m : Entries α} {e : String × α} (h : e ∈ m) : e.1 ∈ keys m :=
  List.mem_map_of_mem h

theorem mem_of_lookup {m : Entries α} {key : String} {value : α} (h : m.lookup key = some value) :
    (key, value) ∈ m := by
  obtain ⟨before, after, rfl, -⟩ := List.lookup_eq_some_iff.mp h
  simp

theorem lookup_of_mem {m : Entries α} (distinct : (keys m).Nodup) {key : String} {value : α}
    (h : (key, value) ∈ m) : m.lookup key = some value := by
  induction m with
  | nil => simp at h
  | cons e rest ih =>
    obtain ⟨k, v⟩ := e
    simp only [keys, List.map_cons, List.nodup_cons] at distinct
    rcases List.mem_cons.mp h with heq | htail
    · obtain ⟨rfl, rfl⟩ := Prod.mk.inj heq
      simp
    · have hne : key ≠ k := by
        rintro rfl
        exact distinct.1 (mem_keys_of_mem htail)
      simpa [List.lookup_cons, beq_false_of_ne hne] using ih distinct.2 htail

theorem lookup_perm {m n : Entries α} (h : m.Perm n) (distinct : (keys m).Nodup) (key : String) :
    m.lookup key = n.lookup key := by
  have hn : (keys n).Nodup := (h.map Prod.fst).nodup_iff.mp distinct
  refine Option.ext fun value => ⟨fun hl => ?_, fun hl => ?_⟩
  · exact lookup_of_mem hn (h.mem_iff.mp (mem_of_lookup hl))
  · exact lookup_of_mem distinct (h.mem_iff.mpr (mem_of_lookup hl))

theorem perm_of_lookup_eq {m n : Entries α} (hm : (keys m).Nodup) (hn : (keys n).Nodup)
    (h : ∀ key, m.lookup key = n.lookup key) : m.Perm n := by
  rw [List.perm_ext_iff_of_nodup (List.Nodup.of_map _ hm) (List.Nodup.of_map _ hn)]
  rintro ⟨key, value⟩
  constructor
  · intro he
    exact mem_of_lookup (h key ▸ lookup_of_mem hm he)
  · intro he
    exact mem_of_lookup ((h key).symm ▸ lookup_of_mem hn he)

theorem lookup_eq_none_iff {m : Entries α} {key : String} : m.lookup key = none ↔ key ∉ keys m := by
  induction m with
  | nil => simp [keys]
  | cons e rest ih =>
    by_cases h : key = e.1 <;> simp_all [keys]

theorem lookup_isSome_iff {m : Entries α} {key : String} :
    (m.lookup key).isSome ↔ key ∈ keys m := by
  rw [Option.isSome_iff_ne_none, ne_eq, lookup_eq_none_iff, not_not]

theorem exists_lookup {m : Entries α} {key : String} (h : key ∈ keys m) :
    ∃ value, m.lookup key = some value := Option.isSome_iff_exists.mp (lookup_isSome_iff.mpr h)

theorem lookup_map (m : Entries α) (f : α → β) (key : String) :
    (m.map fun e => (e.1, f e.2)).lookup key = (m.lookup key).map f := by
  induction m with
  | nil => rfl
  | cons e rest ih =>
    obtain ⟨k, x⟩ := e
    simp only [List.map_cons, List.lookup_cons]
    split
    · rfl
    · exact ih

theorem lookup_filter {m : Entries α} {key : String} {p : String × α → Bool}
    (h : ∀ e ∈ m, e.1 = key → p e = true) : (m.filter p).lookup key = m.lookup key := by
  induction m with
  | nil => rfl
  | cons e rest ih =>
    obtain ⟨k, x⟩ := e
    have hrest := ih fun e he => h e (List.mem_cons_of_mem _ he)
    by_cases hk : key = k
    · subst hk
      rw [List.filter_cons_of_pos (h _ List.mem_cons_self rfl)]
      simp
    · have hne : (key == k) = false := beq_false_of_ne hk
      by_cases hp : p (k, x) = true
      · simp [List.filter_cons_of_pos hp, List.lookup_cons, hne, hrest]
      · simp [List.filter_cons_of_neg hp, List.lookup_cons, hne, hrest]

theorem lookup_put (m : Entries α) (key other : String) (value : α) :
    (put m key value).lookup other = if other = key then some value else m.lookup other := by
  split
  · next h => rw [h, lookup_put_self]
  · next h => exact lookup_put_of_ne m value h

theorem mem_keys_put {m : Entries α} {key other : String} {value : α} :
    other ∈ keys (put m key value) ↔ other = key ∨ other ∈ keys m := by
  rw [keys_put]
  split
  · next h => exact ⟨Or.inr, fun ho => ho.elim (fun he => he ▸ h) id⟩
  · simp [or_comm]

theorem nodup_put {m : Entries α} (distinct : (keys m).Nodup) (key : String) (value : α) :
    (keys (put m key value)).Nodup := by
  rw [keys_put]
  split
  · exact distinct
  · next h =>
    refine List.nodup_append.mpr ⟨distinct, by simp, ?_⟩
    intro a ha b hb hab
    obtain rfl : b = key := by simpa using hb
    exact h (hab ▸ ha)

theorem mem_put {m : Entries α} {key : String} {value : α} {e : String × α}
    (h : e ∈ put m key value) : e = (key, value) ∨ e ∈ m := by
  induction m with
  | nil => simpa [put] using h
  | cons kv rest ih =>
    obtain ⟨k, v⟩ := kv
    simp only [put] at h
    split at h
    · next hk =>
      subst hk
      rcases List.mem_cons.mp h with he | he
      · exact .inl he
      · exact .inr (List.mem_cons_of_mem _ he)
    · rcases List.mem_cons.mp h with he | he
      · exact .inr (he ▸ List.mem_cons_self)
      · exact (ih he).imp_right (List.mem_cons_of_mem _)

theorem putAll_cons (m : Entries α) (e : String × α) (news : Entries α) :
    putAll m (e :: news) = putAll (put m e.1 e.2) news := rfl

theorem putAll_append (m news more : Entries α) :
    putAll m (news ++ more) = putAll (putAll m news) more := List.foldl_append

theorem lookup_putAll (m news : Entries α) (key : String) :
    (putAll m news).lookup key = (news.reverse.lookup key).or (m.lookup key) := by
  induction news generalizing m with
  | nil => rfl
  | cons e rest ih =>
    obtain ⟨k, v⟩ := e
    rw [putAll_cons, ih, List.reverse_cons, List.lookup_append, lookup_put]
    by_cases h : key = k
    · simp [h]
    · have hb : (key == k) = false := beq_false_of_ne h
      simp [h, hb, List.lookup_cons]

theorem lookup_putAll_of_nodup {m news : Entries α} (distinct : (keys news).Nodup) (key : String) :
    (putAll m news).lookup key = (news.lookup key).or (m.lookup key) := by
  have hrev : news.reverse.lookup key = news.lookup key := by
    have hd : (keys news.reverse).Nodup := by
      simpa [keys, List.nodup_reverse] using distinct
    cases hn : news.lookup key with
    | none =>
      rw [lookup_eq_none_iff] at hn ⊢
      simpa [keys] using hn
    | some value => exact lookup_of_mem hd (List.mem_reverse.mpr (mem_of_lookup hn))
  rw [lookup_putAll, hrev]

theorem nodup_putAll {m : Entries α} (distinct : (keys m).Nodup) (news : Entries α) :
    (keys (putAll m news)).Nodup := by
  induction news generalizing m with
  | nil => exact distinct
  | cons e rest ih => exact ih (nodup_put distinct e.1 e.2)

theorem mem_putAll {m news : Entries α} {e : String × α} (h : e ∈ putAll m news) :
    e ∈ news ∨ e ∈ m := by
  induction news generalizing m with
  | nil => exact .inr h
  | cons n rest ih =>
    rcases ih h with hr | hm
    · exact .inl (List.mem_cons_of_mem _ hr)
    · rcases mem_put hm with rfl | hm
      · exact .inl List.mem_cons_self
      · exact .inr hm

theorem nodup_ofPairs (pairs : Entries α) : (keys (ofPairs pairs)).Nodup :=
  nodup_putAll (by simp [keys]) pairs

theorem lookup_ofPairs (pairs : Entries α) (key : String) :
    (ofPairs pairs).lookup key = pairs.reverse.lookup key := by
  simp [ofPairs, lookup_putAll]

theorem lookup_ofPairs_append (a b : Entries α) (key : String) :
    (ofPairs (a ++ b)).lookup key = ((ofPairs b).lookup key).or ((ofPairs a).lookup key) := by
  rw [lookup_ofPairs, lookup_ofPairs, lookup_ofPairs, List.reverse_append, List.lookup_append]

theorem lookup_ofPairs_of_nodup {m : Entries α} (distinct : (keys m).Nodup) (key : String) :
    (ofPairs m).lookup key = m.lookup key := by
  rw [ofPairs, lookup_putAll_of_nodup distinct]
  simp

theorem mem_keys_ofPairs {pairs : Entries α} {key : String} :
    key ∈ keys (ofPairs pairs) ↔ key ∈ keys pairs := by
  rw [← lookup_isSome_iff, lookup_ofPairs, lookup_isSome_iff]
  simp [keys]

theorem filter_ofPairs (pairs : Entries α) (p : String → Bool) :
    (ofPairs pairs).filter (fun e => p e.1) = ofPairs (pairs.filter fun e => p e.1) := by
  have hput : ∀ (m : Entries α) (key : String) (value : α), (put m key value).filter (fun e => p e.1) =
      if p key then put (m.filter fun e => p e.1) key value else m.filter fun e => p e.1 := by
    intro m key value
    induction m with
    | nil => cases hp : p key <;> simp [put, hp]
    | cons e rest ih =>
      obtain ⟨k, v⟩ := e
      by_cases hk : k = key
      · subst hk
        cases hp : p k <;> simp [put, hp]
      · cases hp : p k <;> cases hq : p key <;> simp [put, hk, hp, hq, ih]
  have hall : ∀ m : Entries α, (putAll m pairs).filter (fun e => p e.1) =
      putAll (m.filter fun e => p e.1) (pairs.filter fun e => p e.1) := by
    induction pairs with
    | nil => exact fun _ => rfl
    | cons e rest ih =>
      intro m
      rw [putAll_cons, ih, hput]
      cases hp : p e.1 with
      | true => simp [hp, putAll_cons]
      | false => simp [hp]
  exact hall []

theorem eraseDups_concat (keys : List String) (key : String) : (keys ++ [key]).eraseDups =
    if key ∈ keys then keys.eraseDups else keys.eraseDups ++ [key] := by
  rw [List.eraseDups_append]
  by_cases h : key ∈ keys
  · simp [List.removeAll, h]
  · simp [List.removeAll, h, List.eraseDups_cons]

/-- Keys stand in the order in which they first came. -/
theorem keys_put_of_eq {m : Entries α} {given : List String} (h : keys m = given.eraseDups)
    (key : String) (value : α) : keys (put m key value) = (given ++ [key]).eraseDups := by
  rw [keys_put, eraseDups_concat, h]
  simp only [List.mem_eraseDups]

theorem keys_putAll_of_eq {m : Entries α} {given : List String} (h : keys m = given.eraseDups)
    (news : Entries α) : keys (putAll m news) = (given ++ keys news).eraseDups := by
  induction news generalizing m given with
  | nil => simpa [putAll, keys] using h
  | cons e rest ih =>
    rw [putAll_cons, ih (keys_put_of_eq h e.1 e.2)]
    simp [keys]

theorem eraseDups_append_eraseDups (a b : List String) :
    (a ++ b.eraseDups).eraseDups = (a ++ b).eraseDups := by
  induction b using List.reverseRecOn with
  | nil => rfl
  | append_singleton b key ih =>
    rw [← List.append_assoc, eraseDups_concat (a ++ b), eraseDups_concat b]
    by_cases hb : key ∈ b
    · rw [if_pos hb, if_pos (List.mem_append_right a hb), ih]
    · rw [if_neg hb, ← List.append_assoc, eraseDups_concat, ih]
      simp

theorem lookup_ofPairs_of_last {before after : Entries α} {key : String} {value : α}
    (h : key ∉ keys after) : (ofPairs (before ++ (key, value) :: after)).lookup key = some value := by
  have hnone : after.reverse.lookup key = none := by
    rw [lookup_eq_none_iff]
    simpa [keys] using h
  rw [lookup_ofPairs, List.reverse_append, List.reverse_cons, List.lookup_append, List.lookup_append,
    hnone]
  simp

theorem eq_of_lookup_eq {m n : Entries α} (distinct : (keys m).Nodup) (hkeys : keys m = keys n)
    (h : ∀ key, m.lookup key = n.lookup key) : m = n := by
  induction m generalizing n with
  | nil =>
    cases n with
    | nil => rfl
    | cons e rest => simp [keys] at hkeys
  | cons e rest ih =>
    cases n with
    | nil => simp [keys] at hkeys
    | cons e' rest' =>
      obtain ⟨k, x⟩ := e
      obtain ⟨k', y⟩ := e'
      simp only [keys, List.map_cons, List.cons.injEq] at hkeys
      simp only [keys, List.map_cons, List.nodup_cons] at distinct
      obtain ⟨rfl, htail⟩ := hkeys
      have hhead := h k
      simp only [List.lookup_cons, beq_self_eq_true, Option.some.injEq] at hhead
      have hrest : rest = rest' := by
        refine ih distinct.2 htail fun key => ?_
        by_cases hkey : key = k
        · have hnone : rest.lookup key = none := lookup_eq_none_iff.mpr (hkey ▸ distinct.1)
          have hnone' : rest'.lookup key = none :=
            lookup_eq_none_iff.mpr (by rw [keys, ← htail]; exact hkey ▸ distinct.1)
          rw [hnone, hnone']
        · have hother := h key
          simpa [List.lookup_cons, beq_false_of_ne hkey] using hother
      rw [hhead, hrest]

theorem keys_ofPairs (pairs : Entries α) : keys (ofPairs pairs) = (keys pairs).eraseDups :=
  keys_putAll_of_eq (show keys [] = [].eraseDups from rfl) pairs

/-- One map put into another is all of the pairs that both are made of. -/
theorem putAll_ofPairs_ofPairs (a b : Entries α) :
    putAll (ofPairs a) (ofPairs b) = ofPairs (a ++ b) := by
  refine eq_of_lookup_eq (nodup_putAll (nodup_ofPairs a) _) ?_ fun key => ?_
  · rw [keys_putAll_of_eq (keys_ofPairs a), keys_ofPairs, keys_ofPairs, eraseDups_append_eraseDups]
    simp [keys]
  · rw [lookup_putAll_of_nodup (nodup_ofPairs b), lookup_ofPairs_append]

/-- What was there before adds no key. -/
theorem eraseDups_append_of_subset {a b : List String} (h : b ⊆ a) (c : List String) :
    (a ++ b ++ c).eraseDups = (a ++ c).eraseDups := by
  have hnone : b.removeAll a = [] := by
    refine List.filter_eq_nil_iff.mpr fun key hkey => ?_
    simpa using h hkey
  have hsame : c.removeAll (a ++ b) = c.removeAll a := by
    refine List.filter_congr fun key _ => ?_
    by_cases hkey : key ∈ a
    · simp [hkey]
    · have hb : key ∉ b := fun hmem => hkey (h hmem)
      simp [hkey, hb]
  rw [List.eraseDups_append, List.eraseDups_append, List.eraseDups_append, hnone, hsame]
  simp

theorem filterMap_eq_map {γ : Type} {m : Entries α} {n : Entries β} {f : String × α → Option γ}
    {g : String × β → γ} (hkeys : keys m = keys n)
    (h : ∀ e ∈ n, ∀ value, (e.1, value) ∈ m → f (e.1, value) = some (g e)) :
    m.filterMap f = n.map g := by
  induction m generalizing n with
  | nil =>
    cases n with
    | nil => rfl
    | cons e rest => simp [keys] at hkeys
  | cons a more ih =>
    cases n with
    | nil => simp [keys] at hkeys
    | cons e rest =>
      obtain ⟨k, value⟩ := a
      simp only [keys, List.map_cons, List.cons.injEq] at hkeys
      obtain ⟨rfl, htail⟩ := hkeys
      have hhead := h e List.mem_cons_self value List.mem_cons_self
      have hrest : more.filterMap f = rest.map g := by
        refine ih htail fun e he value hv => ?_
        exact h e (List.mem_cons_of_mem _ he) value (List.mem_cons_of_mem _ hv)
      rw [List.filterMap_cons, hhead, hrest, List.map_cons]

theorem exists_rel_of_mem {α β : Type} {R : α → β → Prop} {xs : List α} {ys : List β}
    (h : List.Forall₂ R xs ys) {y : β} (hy : y ∈ ys) : ∃ x ∈ xs, R x y := by
  induction h with
  | nil => simp at hy
  | @cons a b _ _ hab _ ih =>
    rcases List.mem_cons.mp hy with rfl | hy
    · exact ⟨a, List.mem_cons_self, hab⟩
    · obtain ⟨x, hx, hxy⟩ := ih hy
      exact ⟨x, List.mem_cons_of_mem _ hx, hxy⟩

theorem exists_forall₂ {P : α → β → Prop} {xs : List α} (h : ∀ x ∈ xs, ∃ y, P x y) :
    ∃ ys, List.Forall₂ P xs ys := by
  induction xs with
  | nil => exact ⟨[], .nil⟩
  | cons x rest ih =>
    obtain ⟨y, hy⟩ := h x List.mem_cons_self
    obtain ⟨ys, hys⟩ := ih fun z hz => h z (List.mem_cons_of_mem _ hz)
    exact ⟨y :: ys, .cons hy hys⟩

theorem exists_forall₂_zip {γ : Type} {P : α → γ → Prop} {Q : β → γ → Prop} {xs : List α} {ys : List β}
    (hlength : xs.length = ys.length) (h : ∀ e ∈ xs.zip ys, ∃ z, P e.1 z ∧ Q e.2 z) :
    ∃ zs, List.Forall₂ P xs zs ∧ List.Forall₂ Q ys zs := by
  obtain ⟨zs, hzs⟩ := exists_forall₂ h
  refine ⟨zs, ?_, ?_⟩
  · rw [← List.map_fst_zip (Nat.le_of_eq hlength), List.forall₂_map_left_iff]
    exact hzs.imp fun _ _ h => h.1
  · rw [← List.map_snd_zip (Nat.le_of_eq hlength.symm), List.forall₂_map_left_iff]
    exact hzs.imp fun _ _ h => h.2

theorem forall₂_congr_left {R S : α → β → Prop} {xs : List α} {ys : List β}
    (h : ∀ x ∈ xs, ∀ y, R x y ↔ S x y) : List.Forall₂ R xs ys ↔ List.Forall₂ S xs ys := by
  induction xs generalizing ys with
  | nil => rw [List.forall₂_nil_left_iff, List.forall₂_nil_left_iff]
  | cons x rest ih =>
    rw [List.forall₂_cons_left_iff, List.forall₂_cons_left_iff]
    simp only [h x List.mem_cons_self, ih fun z hz => h z (List.mem_cons_of_mem _ hz)]

/-- Two steps from list to list, taken together element by element. -/
theorem forall₂_comp_iff {γ : Type} {R : α → β → Prop} {S : β → γ → Prop} {xs : List α} {zs : List γ} :
    (∃ ys, List.Forall₂ R xs ys ∧ List.Forall₂ S ys zs) ↔ List.Forall₂ (fun x z => ∃ y, R x y ∧ S y z) xs zs := by
  constructor
  · rintro ⟨ys, hxs, hys⟩
    induction hxs generalizing zs with
    | nil =>
      cases hys
      exact .nil
    | cons hx _ ih =>
      cases hys with
      | cons hy hrest => exact .cons ⟨_, hx, hy⟩ (ih hrest)
  · intro h
    induction h with
    | nil => exact ⟨[], .nil, .nil⟩
    | cons hhead _ ih =>
      obtain ⟨y, hx, hy⟩ := hhead
      obtain ⟨ys, hxs, hys⟩ := ih
      exact ⟨y :: ys, .cons hx hxs, .cons hy hys⟩

theorem map_eq_of_forall₂ {γ : Type} {f : α → γ} {g : β → γ} {xs : List α} {ys : List β}
    (h : List.Forall₂ (fun x y => g y = f x) xs ys) : ys.map g = xs.map f := by
  induction h with
  | nil => rfl
  | cons hd _ ih => rw [List.map_cons, List.map_cons, hd, ih]

theorem mapM_eq_ok_iff {ε : Type} {f : α → Except ε β} {xs : List α} {ys : List β} :
    xs.mapM f = .ok ys ↔ List.Forall₂ (fun x y => f x = .ok y) xs ys := by
  induction xs generalizing ys with
  | nil => simp [pure, Except.pure, eq_comm]
  | cons x rest ih =>
    rw [List.mapM_cons, List.forall₂_cons_left_iff]
    simp only [← ih]
    rcases f x with e | y <;> rcases rest.mapM f with e | more <;>
      simp [Bind.bind, Except.bind, pure, Except.pure, eq_comm]

theorem forall₂_map {α β γ : Type} {R : β → γ → Prop} {f : α → β} {g : α → γ} {l : List α}
    (h : ∀ a ∈ l, R (f a) (g a)) : List.Forall₂ R (l.map f) (l.map g) := by
  rw [List.forall₂_map_left_iff, List.forall₂_map_right_iff]
  exact List.forall₂_same.mpr h

theorem forall₂_mapIdx {α β γ : Type} {R : β → γ → Prop} {f : Nat → α → β} {g : Nat → α → γ}
    {l : List α} (h : ∀ i, ∀ a ∈ l, R (f i a) (g i a)) : List.Forall₂ R (l.mapIdx f) (l.mapIdx g) := by
  rw [List.mapIdx_eq_zipIdx_map, List.mapIdx_eq_zipIdx_map]
  exact forall₂_map fun e he => h e.2 e.1 (List.fst_mem_of_mem_zipIdx he)

theorem lookup_cons_ite {κ α : Type} [DecidableEq κ] (m : List (κ × α)) (key k : κ) (value : α) :
    ((key, value) :: m).lookup k = if k = key then some value else m.lookup k := by
  rw [List.lookup_cons]
  by_cases h : k = key
  · simp [h]
  · rw [beq_false_of_ne h, if_neg h]

theorem ofPairs_map (f : α → β) (pairs : Entries α) :
    ofPairs (pairs.map fun e => (e.1, f e.2)) = (ofPairs pairs).map fun e => (e.1, f e.2) := by
  have hput : ∀ (m : Entries α) (key : String) (value : α),
      put (m.map fun e => (e.1, f e.2)) key (f value) =
        (put m key value).map fun e => (e.1, f e.2) := by
    intro m key value
    induction m with
    | nil => rfl
    | cons e rest ih =>
      simp only [List.map_cons, put, ih]
      split <;> rfl
  have hall : ∀ m : Entries α, putAll (m.map fun e => (e.1, f e.2)) (pairs.map fun e => (e.1, f e.2)) =
      (putAll m pairs).map fun e => (e.1, f e.2) := by
    induction pairs with
    | nil => exact fun _ => rfl
    | cons e rest ih =>
      intro m
      rw [List.map_cons, putAll_cons, putAll_cons, hput, ih]
  exact hall []

section Keys

variable {κ : Type} [DecidableEq κ]

theorem putBy_of_not_mem {m : List (κ × α)} {key : κ} (h : key ∉ m.map Prod.fst) (value : α) :
    putBy (· == ·) m key value = m ++ [(key, value)] := by
  induction m with
  | nil => rfl
  | cons e rest ih =>
    obtain ⟨hne, hrest⟩ : key ≠ e.1 ∧ key ∉ rest.map Prod.fst := by simpa using h
    simp [putBy, Ne.symm hne, ih hrest]

/-- Pairs with distinct keys are what they stand for. -/
theorem ofPairsBy_of_nodup {pairs : List (κ × α)} (distinct : (pairs.map Prod.fst).Nodup) :
    ofPairsBy (· == ·) pairs = pairs := by
  have hall : ∀ rest before : List (κ × α), ((before ++ rest).map Prod.fst).Nodup →
      rest.foldl (fun m e => putBy (· == ·) m e.1 e.2) before = before ++ rest := by
    intro rest
    induction rest with
    | nil => simp
    | cons e rest ih =>
      intro before hnodup
      have hnew : e.1 ∉ before.map Prod.fst := by
        rw [List.map_append, List.map_cons, List.nodup_append] at hnodup
        exact fun hmem => hnodup.2.2 _ hmem _ List.mem_cons_self rfl
      rw [List.foldl_cons, putBy_of_not_mem hnew, ih _ (by simpa using hnodup)]
      simp
  exact hall pairs [] distinct

end Keys

/-- The same keys in the same order, with related values. -/
def Related (R : α → β → Prop) : Entries α → Entries β → Prop :=
  List.Forall₂ fun a b => a.1 = b.1 ∧ R a.2 b.2

namespace Related

variable {R : α → β → Prop} {m : Entries α} {n : Entries β}

theorem lookup (h : Related R m n) (key : String) :
    Option.Rel R (m.lookup key) (n.lookup key) := by
  induction h with
  | nil => exact .none
  | @cons a b _ _ hd _ ih =>
    obtain ⟨hk, hr⟩ := hd
    obtain ⟨k, x⟩ := a
    obtain ⟨k', y⟩ := b
    obtain rfl : k = k' := hk
    simp only [List.lookup_cons]
    split
    · exact .some hr
    · exact ih

theorem keys_eq (h : Related R m n) : keys m = keys n := by
  induction h with
  | nil => rfl
  | cons hd _ ih =>
    simp only [keys, List.map_cons] at ih ⊢
    rw [hd.1, ih]

theorem exists_of_mem (h : Related R m n) {b : String × β} (hb : b ∈ n) :
    ∃ a ∈ m, a.1 = b.1 ∧ R a.2 b.2 := exists_rel_of_mem h hb

theorem put (h : Related R m n) (key : String) {a : α} {b : β} (hr : R a b) :
    Related R (Entries.put m key a) (Entries.put n key b) := by
  induction h with
  | nil => exact .cons ⟨rfl, hr⟩ .nil
  | @cons x y _ _ hd htl ih =>
    obtain ⟨hk, hxy⟩ := hd
    simp only [Entries.put, hk]
    split
    · exact .cons ⟨rfl, hr⟩ htl
    · exact .cons ⟨rfl, hxy⟩ ih

theorem putAll (h : Related R m n) {more : Entries α} {news : Entries β}
    (hn : Related R more news) : Related R (Entries.putAll m more) (Entries.putAll n news) := by
  induction hn generalizing m n with
  | nil => exact h
  | @cons a b _ _ hd _ ih =>
    rw [putAll_cons, putAll_cons, hd.1]
    exact ih (h.put b.1 hd.2)

theorem map {γ δ : Type} {S : γ → δ → Prop} {f : α → γ} {g : β → δ} (h : Related R m n)
    (hfg : ∀ a b, R a b → S (f a) (g b)) :
    Related S (m.map fun e => (e.1, f e.2)) (n.map fun e => (e.1, g e.2)) := by
  induction h with
  | nil => exact .nil
  | cons hd _ ih => exact .cons ⟨hd.1, hfg _ _ hd.2⟩ ih

theorem imp {S : α → β → Prop} (h : Related R m n) (himp : ∀ a b, R a b → S a b) :
    Related S m n := List.Forall₂.imp (fun _ _ hab => ⟨hab.1, himp _ _ hab.2⟩) h

theorem and_of_mem {P : α → Prop} {Q : β → Prop} (h : Related R m n) (hp : ∀ a ∈ m, P a.2)
    (hq : ∀ b ∈ n, Q b.2) : Related (fun a b => P a ∧ Q b ∧ R a b) m n := by
  induction h with
  | nil => exact .nil
  | cons hd _ ih =>
    obtain ⟨hp, hps⟩ := List.forall_mem_cons.mp hp
    obtain ⟨hq, hqs⟩ := List.forall_mem_cons.mp hq
    exact .cons ⟨hd.1, hp, hq, hd.2⟩ (ih hps hqs)

end Related

theorem related_iff_zip {R : α → β → Prop} {m : Entries α} {n : Entries β} :
    Related R m n ↔ keys n = keys m ∧ ∀ e ∈ m.zip n, R e.1.2 e.2.2 := by
  induction m generalizing n with
  | nil => cases n <;> simp [Related, keys]
  | cons a rest ih =>
    cases n with
    | nil => simp [Related, keys]
    | cons b more =>
      have htail := ih (n := more)
      simp only [Related, keys] at htail
      simp only [Related, keys, List.forall₂_cons, htail, List.map_cons, List.cons.injEq, List.zip_cons_cons,
        List.forall_mem_cons]
      grind

/-- Values that belong to the entries one by one are entries under the same keys. -/
theorem forall₂_zip_keys {P : String × α → β → Prop} {m : Entries α} {vs : List β} (h : List.Forall₂ P m vs) :
    List.Forall₂ (fun p q => p.1 = q.1 ∧ P p q.2) m ((keys m).zip vs) := by
  induction h with
  | nil => exact .nil
  | cons hp _ ih => exact .cons ⟨rfl, hp⟩ ih

end CheckedModels.Entries
