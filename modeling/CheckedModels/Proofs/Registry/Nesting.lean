import CheckedModels.Proofs.Entries
import CheckedModels.Registry.TypeName

/-! Unions within unions. Where a union has a finite name, only so many unions are entered before a step
into the value. -/
namespace CheckedModels.Registry

variable {r : Registry} {d : Descriptor} {key other : String} {u : Union} {n : Nat}

/-- At most so many unions are entered before a step into the value. -/
inductive Nests (r : Registry) : Nat → Descriptor → Prop where
  | basic (n : Nat) (b : Basic) : Nests r n (.basic b)
  | array (n : Nat) (item : Descriptor) : Nests r n (.array item)
  | map (n : Nat) (item : Descriptor) : Nests r n (.map item)
  | maybeNull {n : Nat} {inner : Descriptor} (h : Nests r n inner) : Nests r n (.maybeNull inner)
  | other {n : Nat} {key : String} (h : ∀ u, r.find? key ≠ some (.union u)) : Nests r n (.named key)
  | union {n : Nat} {key : String} {u : Union} (h : r.find? key = some (.union u))
    (hd : ∀ d ∈ u.alternatives, Nests r n d) : Nests r (n + 1) (.named key)

theorem typeName?_eq_some (h : r.nameEnds d = true) : r.typeName? d = some (r.typeName d) := if_pos h

theorem nameEnds_of_typeName? {name : String} (h : r.typeName? d = some name) : r.nameEnds d = true := by
  unfold typeName? at h
  split at h
  · assumption
  · cases h

theorem nameEnds_basic (b : Basic) : r.nameEnds (.basic b) = true := rfl

/-- Only unions have names that are written from others. -/
theorem nameEnds_of_not_union (h : ∀ u, r.find? key ≠ some (.union u)) : r.nameEnds (.named key) = true := by
  simp [nameEnds, Descriptor.key?, keyEnds]

theorem keyEnds_mono {k : Nat} (h : r.keyEnds n key = true) (hk : n ≤ k) : r.keyEnds k key = true := by
  induction n generalizing k key with
  | zero => simp [keyEnds] at h
  | succ n ih =>
    obtain ⟨k, rfl⟩ := Nat.exists_eq_add_one.mpr (Nat.lt_of_lt_of_le (Nat.succ_pos _) hk)
    unfold keyEnds at h ⊢
    split
    · next u hu =>
      simp only [hu] at h
      refine List.all_eq_true.mpr fun d hd => ?_
      have hall := List.all_eq_true.mp h d hd
      cases hkey : d.key? with
      | none => rfl
      | some other =>
        rw [hkey] at hall
        exact ih hall (Nat.le_of_succ_le_succ hk)
    · rfl

/-- The alternatives of a union have finite names if it has one. -/
theorem nameEnds_alternative (h : r.nameEnds (.named key) = true) (hu : r.find? key = some (.union u))
    (hd : d ∈ u.alternatives) : r.nameEnds d = true := by
  simp only [nameEnds, Descriptor.key?, Option.all_some, keyEnds, hu] at h
  have hall := List.all_eq_true.mp h d hd
  unfold nameEnds
  cases hkey : d.key? with
  | none => rfl
  | some other =>
    rw [hkey] at hall
    exact keyEnds_mono hall (Nat.le_succ _)

/-- The union is entered before a step into the value. -/
inductive Enters (r : Registry) : Descriptor → String → Prop where
  | maybeNull {inner : Descriptor} {key : String} (h : Enters r inner key) : Enters r (.maybeNull inner) key
  | here {key : String} {u : Union} (h : r.find? key = some (.union u)) : Enters r (.named key) key
  | alternative {key other : String} {u : Union} {d : Descriptor} (h : r.find? key = some (.union u))
    (hd : d ∈ u.alternatives) (ho : Enters r d other) : Enters r (.named key) other

namespace Nests

theorem alternatives (h : r.Nests n (.named key)) (hu : r.find? key = some (.union u)) :
    ∃ k, n = k + 1 ∧ ∀ d ∈ u.alternatives, r.Nests k d := by
  cases h with
  | other hne => exact absurd hu (hne u)
  | union hv hd =>
    obtain rfl : u = _ := by simpa [hu] using hv
    exact ⟨_, rfl, hd⟩

theorem inner {inner : Descriptor} (h : r.Nests n (.maybeNull inner)) : r.Nests n inner := by
  cases h with
  | maybeNull h => exact h

theorem mono (h : r.Nests n d) {k : Nat} (hk : n ≤ k) : r.Nests k d := by
  induction h generalizing k with
  | basic _ b => exact .basic k b
  | array _ item => exact .array k item
  | map _ item => exact .map k item
  | maybeNull _ ih => exact .maybeNull (ih hk)
  | other h => exact .other h
  | union hu _ ih =>
    obtain ⟨k, rfl⟩ := Nat.exists_eq_add_one.mpr (Nat.lt_of_lt_of_le (Nat.succ_pos _) hk)
    exact .union hu fun d hd => ih d hd (Nat.le_of_succ_le_succ hk)

theorem of_enters (h : r.Nests n d) (he : r.Enters d other) : r.Nests n (.named other) := by
  induction he generalizing n with
  | maybeNull _ ih => exact ih h.inner
  | here => exact h
  | alternative hu hd _ ih =>
    obtain ⟨k, rfl, hall⟩ := h.alternatives hu
    exact (ih (hall _ hd)).mono (Nat.le_succ k)

/-- A union that is entered again from one of its alternatives has no finite depth. -/
theorem not_enters (h : r.Nests n (.named key)) (hu : r.find? key = some (.union u))
    (hd : d ∈ u.alternatives) : ¬ r.Enters d key := by
  intro he
  induction n with
  | zero =>
    obtain ⟨k, hk, -⟩ := h.alternatives hu
    exact absurd hk (Nat.succ_ne_zero k).symm
  | succ n ih =>
    obtain ⟨k, hk, hall⟩ := h.alternatives hu
    obtain rfl := Nat.succ.inj hk
    exact ih ((hall d hd).of_enters he)

/-- The depth is at most the number of unions that may be entered, since none is entered twice on the
way down. -/
theorem length_of_enters (h : r.Nests n d) {keys : List String}
    (hkeys : ∀ key, r.Enters d key → key ∈ keys) : r.Nests keys.length d := by
  induction h generalizing keys with
  | basic _ b => exact .basic _ b
  | array _ item => exact .array _ item
  | map _ item => exact .map _ item
  | other h => exact .other h
  | maybeNull _ ih => exact .maybeNull (ih fun key he => hkeys key (.maybeNull he))
  | @union n key u hu hall ih =>
    have hmem : key ∈ keys := hkeys key (.here hu)
    have hpos : 0 < keys.length := List.length_pos_of_mem hmem
    have hrest : ∀ d ∈ u.alternatives, r.Nests (keys.erase key).length d := by
      intro d hd
      refine ih d hd fun other he => ?_
      have hne : other ≠ key := by
        rintro rfl
        exact not_enters (.union hu hall) hu hd he
      exact (List.mem_erase_of_ne hne).mpr (hkeys other (.alternative hu hd he))
    have hlength : keys.length = (keys.erase key).length + 1 := by
      rw [List.length_erase_of_mem hmem]
      omega
    rw [hlength]
    exact .union hu hrest

theorem mem_keys_of_enters (h : r.Enters d key) : key ∈ r.keys := by
  induction h with
  | maybeNull _ ih | alternative _ _ _ ih => exact ih
  | here hu => exact Entries.lookup_isSome_iff.mp (Option.isSome_iff_exists.mpr ⟨_, hu⟩)

theorem length_entries (h : r.Nests n d) : r.Nests r.entries.length d := by
  have hall := h.length_of_enters fun _ => mem_keys_of_enters
  simpa [Registry.keys, Entries.keys] using hall

theorem of_keyEnds (h : r.keyEnds n key = true) : r.Nests n (.named key) := by
  induction n generalizing key with
  | zero => simp [keyEnds] at h
  | succ n ih =>
    have hlayers : ∀ d : Descriptor, d.key?.all (r.keyEnds n) = true → r.Nests n d := by
      intro d hd
      induction d with
      | basic b => exact .basic n b
      | maybeNull inner ihd => exact .maybeNull (ihd hd)
      | array item => exact .array n item
      | map item => exact .map n item
      | named key => exact ih (by simpa [Descriptor.key?] using hd)
    by_cases hu : ∃ u, r.find? key = some (.union u)
    · obtain ⟨u, hu⟩ := hu
      simp only [keyEnds, hu] at h
      exact .union hu fun d hd => hlayers d (List.all_eq_true.mp h d hd)
    · exact .other fun u hfind => hu ⟨u, hfind⟩

theorem of_nameEnds (h : r.nameEnds d = true) : r.Nests r.entries.length d := by
  induction d with
  | basic b => exact .basic _ b
  | array item => exact .array _ item
  | map item => exact .map _ item
  | maybeNull inner ih => exact .maybeNull (ih h)
  | named key =>
    have hkey : r.keyEnds (r.entries.length + 1) key = true := by
      simpa [nameEnds, Descriptor.key?] using h
    exact (of_keyEnds hkey).length_entries

end Nests

/-- The name of what is registered under the key is part of the name of the descriptor. -/
inductive Mentions (r : Registry) : Descriptor → String → Prop where
  | here {d : Descriptor} {key : String} (h : d.key? = some key) : Mentions r d key
  | alternative {d a : Descriptor} {key other : String} {u : Union} (h : d.key? = some key)
    (hu : r.find? key = some (.union u)) (ha : a ∈ u.alternatives) (ho : Mentions r a other) : Mentions r d other

namespace Mentions

theorem of_key? (hk : d.key? = some key) (h : r.Mentions (.named key) other) : r.Mentions d other := by
  cases h with
  | here heq =>
    obtain rfl : key = other := by simpa [Descriptor.key?] using heq
    exact .here hk
  | alternative heq hu ha ho =>
    obtain rfl : key = _ := by simpa [Descriptor.key?] using heq
    exact .alternative hk hu ha ho

/-- A name ends if no union takes part in its own: on the way down each union uses up one of the keys. -/
theorem keyEnds_of_ends {key : String} {keys : List String}
    (hkeys : ∀ k u, r.Mentions (.named key) k → r.find? k = some (.union u) → k ∈ keys)
    (hends : ∀ k u, r.Mentions (.named key) k → r.find? k = some (.union u) →
      ∀ a ∈ u.alternatives, ¬ r.Mentions a k) : r.keyEnds (keys.length + 1) key = true := by
  by_cases hu : ∃ u, r.find? key = some (.union u)
  · obtain ⟨u, hu⟩ := hu
    have hmem : key ∈ keys := hkeys key u (.here rfl) hu
    have hlength : keys.length = (keys.erase key).length + 1 := by
      have hpos := List.length_pos_of_mem hmem
      rw [List.length_erase_of_mem hmem]
      omega
    rw [hlength, keyEnds, hu]
    refine List.all_eq_true.mpr fun a ha => ?_
    cases hk : a.key? with
    | none => rfl
    | some k =>
      have hinner : ∀ j, r.Mentions (.named k) j → r.Mentions a j := fun j => .of_key? hk
      have houter : ∀ j, r.Mentions (.named k) j → r.Mentions (.named key) j :=
        fun j hj => .alternative rfl hu ha (hinner j hj)
      refine keyEnds_of_ends (fun j v hj hv => ?_) fun j v hj => hends j v (houter j hj)
      have hne : j ≠ key := by
        rintro rfl
        exact hends j u (.here rfl) hu a ha (hinner j hj)
      exact (List.mem_erase_of_ne hne).mpr (hkeys j v (houter j hj) hv)
  · rw [keyEnds]
    split
    · next u hfind => exact absurd ⟨u, hfind⟩ hu
    · rfl
termination_by keys.length
decreasing_by omega

theorem exists_typeName (hends : ∀ k u, r.Mentions (.named key) k → r.find? k = some (.union u) →
    ∀ a ∈ u.alternatives, ¬ r.Mentions a k) : ∃ name, r.typeName? (.named key) = some name := by
  have hall : r.keyEnds (r.keys.length + 1) key = true :=
    keyEnds_of_ends (fun k u _ hu => Entries.lookup_isSome_iff.mp (Option.isSome_iff_exists.mpr ⟨_, hu⟩)) hends
  have hlength : r.keys.length = r.entries.length := by simp [Registry.keys, Entries.keys]
  have hname : r.nameEnds (.named key) = true := by
    simpa [nameEnds, Descriptor.key?, hlength] using hall
  exact ⟨r.typeName (.named key), typeName?_eq_some hname⟩

end Mentions

end CheckedModels.Registry
