/-! Maps that keep the order in which their keys first came, as lists of pairs. -/
namespace CheckedModels

/-- A key that is given again keeps its place and takes the later value. -/
abbrev Entries (α : Type) := List (String × α)

namespace Entries

variable {α β : Type}

def keys (m : Entries α) : List String := m.map Prod.fst

def put (m : Entries α) (key : String) (value : α) : Entries α :=
  match m with
  | [] => [(key, value)]
  | (k, v) :: rest => if k = key then (k, value) :: rest else (k, v) :: put rest key value

def putAll (m : Entries α) (news : Entries α) : Entries α :=
  news.foldl (fun acc kv => put acc kv.1 kv.2) m

/-- As `put`, for keys of any kind, of which some count as the same. -/
def putBy {κ : Type} (same : κ → κ → Bool) (m : List (κ × α)) (key : κ) (value : α) :
    List (κ × α) :=
  match m with
  | [] => [(key, value)]
  | (k, v) :: rest => if same k key then (k, value) :: rest else (k, v) :: putBy same rest key value

/-- The map that a list of pairs, with repeated keys, stands for. -/
def ofPairs (pairs : Entries α) : Entries α := putAll [] pairs

def ofPairsBy {κ : Type} (same : κ → κ → Bool) (pairs : List (κ × α)) : List (κ × α) :=
  pairs.foldl (fun m e => putBy same m e.1 e.2) []

theorem lookup_put_self (m : Entries α) (key : String) (value : α) :
    (put m key value).lookup key = some value := by
  induction m with
  | nil => simp [put]
  | cons kv rest ih =>
    obtain ⟨k, v⟩ := kv
    by_cases h : k = key
    · simp [put, h]
    · have hne : (key == k) = false := by simpa using Ne.symm h
      simp [put, h, List.lookup_cons, hne, ih]

theorem lookup_put_of_ne (m : Entries α) {key other : String} (value : α) (h : other ≠ key) :
    (put m key value).lookup other = m.lookup other := by
  induction m with
  | nil =>
    have hne : (other == key) = false := by simpa using h
    simp [put, List.lookup_cons, hne]
  | cons kv rest ih =>
    obtain ⟨k, v⟩ := kv
    by_cases hk : k = key
    · subst hk
      have hne : (other == k) = false := by simpa using h
      simp [put, List.lookup_cons, hne]
    · simp only [put, hk, if_false, List.lookup_cons, ih]

/-- A new key comes last, a known one keeps its place. -/
theorem keys_put (m : Entries α) (key : String) (value : α) :
    keys (put m key value) = if key ∈ keys m then keys m else keys m ++ [key] := by
  induction m with
  | nil => simp [put, keys]
  | cons kv rest ih =>
    obtain ⟨k, v⟩ := kv
    by_cases h : k = key
    · subst h
      simp [put, keys]
    · have hne : ¬ key = k := Ne.symm h
      simp only [keys] at ih
      by_cases hm : key ∈ rest.map Prod.fst <;> simp [put, keys, h, hne, ih, hm]

end Entries

end CheckedModels
