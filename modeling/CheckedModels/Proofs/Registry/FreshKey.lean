import CheckedModels.Proofs.Entries
import CheckedModels.Registry.Build

/-! Keys that end in the number of their definition are never given twice. -/
namespace CheckedModels.Registry

/-- The first of its kind divides a list in one way. -/
theorem append_cons_injective {α : Type} {x : α} {a b r t : List α} (ha : x ∉ a) (hb : x ∉ b)
    (h : a ++ x :: r = b ++ x :: t) : a = b ∧ r = t := by
  induction a generalizing b with
  | nil =>
    cases b with
    | nil => exact ⟨rfl, (List.cons.inj h).2⟩
    | cons c b =>
      obtain ⟨rfl, -⟩ := List.cons.inj h
      exact absurd List.mem_cons_self hb
  | cons c a ih =>
    cases b with
    | nil =>
      obtain ⟨rfl, -⟩ := List.cons.inj h
      exact absurd List.mem_cons_self ha
    | cons d b =>
      obtain ⟨rfl, htail⟩ := List.cons.inj h
      obtain ⟨rfl, hr⟩ := ih (fun hm => ha (List.mem_cons_of_mem _ hm))
        (fun hm => hb (List.mem_cons_of_mem _ hm)) htail
      exact ⟨rfl, hr⟩

private theorem hash_not_mem_digits (n : Nat) : '#' ∉ (Nat.toDigits 10 n).reverse := by
  intro h
  have := Nat.isDigit_of_mem_toDigits (by decide) (by decide) (List.mem_reverse.mp h)
  simp [Char.isDigit] at this

/-- The name before the number may be anything, number signs and digits included. -/
theorem numberedKey_injective {a b : String} {i j : Nat}
    (h : numberedKey a i = numberedKey b j) : i = j := by
  have hl : a.toList ++ '#' :: Nat.toDigits 10 i = b.toList ++ '#' :: Nat.toDigits 10 j := by
    have := congrArg String.toList h
    simpa [numberedKey] using this
  have hr := congrArg List.reverse hl
  simp only [List.reverse_append, List.reverse_cons, List.append_assoc, List.singleton_append] at hr
  have hd := List.reverse_injective
    (append_cons_injective (hash_not_mem_digits i) (hash_not_mem_digits j) hr).1
  rw [← Nat.ofDigitChars_ten_toDigits (n := i), hd, Nat.ofDigitChars_ten_toDigits]

/-- Each definition has its own number at the end of its key. -/
def Numbered (r : Registry) : Prop :=
  ∀ i key, r.keys[i]? = some key → ∃ name, key = numberedKey name i

theorem numbered_empty : Numbered {} := by
  intro i key h
  simp [keys, Entries.keys] at h

theorem Numbered.freshKey_not_mem {r : Registry} (h : r.Numbered) (name : String) :
    r.freshKey name ∉ r.keys := by
  intro hm
  obtain ⟨i, hi⟩ := List.getElem?_of_mem hm
  obtain ⟨other, heq⟩ := h i _ hi
  have hlt : i < r.keys.length := (List.getElem?_eq_some_iff.mp hi).1
  have := numberedKey_injective heq
  simp only [keys, Entries.keys, List.length_map] at hlt
  omega

theorem Numbered.nodup {r : Registry} (h : r.Numbered) : r.keys.Nodup := by
  refine List.nodup_iff_getElem?_ne_getElem?.mpr fun i j hij hj heq => ?_
  obtain ⟨key, hkey⟩ : ∃ key, r.keys[j]? = some key := ⟨_, List.getElem?_eq_getElem hj⟩
  obtain ⟨a, ha⟩ := h i key (heq.trans hkey)
  obtain ⟨b, hb⟩ := h j key hkey
  have := numberedKey_injective (ha.symm.trans hb)
  omega

theorem Numbered.introduce_entries {r : Registry} (h : r.Numbered) (name : String) (d : Definition) :
    (r.introduce name d).1.entries = r.entries ++ [(r.freshKey name, d)] := by
  simp [introduce, ensure, h.freshKey_not_mem name]

theorem Numbered.find?_introduce {r : Registry} (h : r.Numbered) (name other : String) (d : Definition) :
    (r.introduce name d).1.find? other = if other = r.freshKey name then some d else r.find? other := by
  have hnone : r.find? (r.freshKey name) = none :=
    Entries.lookup_eq_none_iff.mpr (h.freshKey_not_mem name)
  rw [find?, h.introduce_entries, List.lookup_append, Entries.lookup_cons_ite, ← find?]
  split
  · next heq => rw [heq, hnone, Option.none_or]
  · rw [List.lookup_nil, Option.or_none]

theorem Numbered.introduce {r : Registry} (h : r.Numbered) (name : String) (d : Definition) :
    (r.introduce name d).1.Numbered := by
  intro i key hi
  have hk : (r.introduce name d).1.keys = r.keys ++ [r.freshKey name] := by
    simp [keys, Entries.keys, h.introduce_entries]
  rw [hk, List.getElem?_append] at hi
  split at hi
  · exact h i key hi
  · next hlt =>
    have hlen : i - r.keys.length < 1 := by
      simpa using (List.getElem?_eq_some_iff.mp hi).1
    have hi0 : i - r.keys.length = 0 := by omega
    have heq : i = r.entries.length := by
      simp only [keys, Entries.keys, List.length_map] at hlt hi0
      omega
    rw [hi0] at hi
    refine ⟨name, ?_⟩
    simpa [freshKey, heq] using hi.symm

theorem find?_replace (r : Registry) (key other : String) (d : Definition) :
    (r.replace key d).find? other = if other = key then some d else r.find? other :=
  Entries.lookup_put r.entries key other d

theorem keys_replace {r : Registry} {key : String} (hk : key ∈ r.keys) (d : Definition) :
    (r.replace key d).keys = r.keys := by
  unfold keys replace at *
  rw [Entries.keys_put, if_pos hk]

theorem Numbered.replace {r : Registry} (h : r.Numbered) {key : String} (hk : key ∈ r.keys)
    (d : Definition) : (r.replace key d).Numbered := by
  unfold Numbered
  rw [keys_replace hk]
  exact h

end CheckedModels.Registry
