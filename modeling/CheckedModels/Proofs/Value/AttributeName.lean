import CheckedModels.Proofs.Entries
import CheckedModels.Value.AttributeName
import Mathlib.Data.List.Perm.Subperm

/-! Properties are held under distinct attribute names, each of which leads to its own property. -/
namespace CheckedModels

namespace AttributeName

variable {keys taken : List String} {key name : String}

def underscores (n : Nat) : String := String.ofList (List.replicate n '_')

theorem append_underscores_succ (name : String) (n : Nat) :
    name ++ underscores (n + 1) = name ++ "_" ++ underscores n := by
  refine String.toList_injective ?_
  simp [underscores, List.replicate_succ]

theorem append_underscores_injective (name : String) :
    Function.Injective fun n => name ++ underscores n := by
  intro i j h
  simpa [underscores] using congrArg String.length h

/-- A name that is not free after so many steps has all names on the way taken. -/
theorem mem_of_freeName_mem {n : Nat} (h : freeName taken name n ∈ taken) :
    ∀ i ≤ n, name ++ underscores i ∈ taken := by
  induction n generalizing name with
  | zero =>
    intro i hi
    obtain rfl := Nat.le_zero.mp hi
    simpa [freeName, underscores] using h
  | succ n ih =>
    rw [freeName] at h
    split at h
    · next hname =>
      intro i hi
      cases i with
      | zero => simpa [underscores] using hname
      | succ i =>
        rw [append_underscores_succ]
        exact ih h i (Nat.le_of_succ_le_succ hi)
    · next hname => simp [h] at hname

/-- There are more names on the way than names that are taken. -/
theorem freeName_not_mem (taken : List String) (name : String) :
    freeName taken name taken.length ∉ taken := by
  intro h
  let names := (List.range (taken.length + 1)).map fun i => name ++ underscores i
  have hdistinct : names.Nodup := List.nodup_range.map (append_underscores_injective name)
  have hsubset : names ⊆ taken := by
    intro a ha
    obtain ⟨i, hi, rfl⟩ := List.mem_map.mp ha
    exact mem_of_freeName_mem h i (Nat.lt_succ_iff.mp (List.mem_range.mp hi))
  have hlength : taken.length + 1 ≤ taken.length := by
    simpa [names] using (List.subperm_of_subset hdistinct hsubset).length_le
  omega

theorem keys_assign (taken keys : List String) : (assign taken keys).keys = keys := by
  induction keys generalizing taken with
  | nil => rfl
  | cons key rest ih =>
    have hrest := fun taken => ih taken
    simp only [Entries.keys] at hrest
    unfold assign
    split <;> simp [Entries.keys, hrest]

/-- A plain key is its own name, and every other name is new. -/
theorem mem_assign (h : (key, name) ∈ assign taken keys) :
    key ∈ keys ∧ (isPlain key = true ∧ name = key ∨ isPlain key = false ∧ name ∉ taken) := by
  induction keys generalizing taken with
  | nil => simp [assign] at h
  | cons first rest ih =>
    unfold assign at h
    split at h
    · next hplain =>
      rcases List.mem_cons.mp h with heq | htail
      · obtain ⟨rfl, rfl⟩ := Prod.mk.inj heq
        exact ⟨List.mem_cons_self, .inl ⟨hplain, rfl⟩⟩
      · exact (ih htail).imp_left (List.mem_cons_of_mem _)
    · next hplain =>
      rcases List.mem_cons.mp h with heq | htail
      · obtain ⟨rfl, rfl⟩ := Prod.mk.inj heq
        exact ⟨List.mem_cons_self, .inr ⟨by simpa using hplain, freeName_not_mem _ _⟩⟩
      · obtain ⟨hkey, hname⟩ := ih htail
        refine ⟨List.mem_cons_of_mem _ hkey, hname.imp_right fun hnew => ⟨hnew.1, ?_⟩⟩
        exact fun hmem => hnew.2 (List.mem_cons_of_mem _ hmem)

/-- No name is given twice, if the plain keys are taken from the start. -/
theorem nodup_assign (distinct : keys.Nodup) (h : ∀ key ∈ keys, isPlain key = true → key ∈ taken) :
    ((assign taken keys).map Prod.snd).Nodup := by
  induction keys generalizing taken with
  | nil => simp [assign]
  | cons first rest ih =>
    obtain ⟨hfirst, hdistinct⟩ := List.nodup_cons.mp distinct
    have hrest : ∀ key ∈ rest, isPlain key = true → key ∈ taken :=
      fun key hkey => h key (List.mem_cons_of_mem _ hkey)
    unfold assign
    split
    · next hplain =>
      refine List.nodup_cons.mpr ⟨fun hmem => ?_, ih hdistinct hrest⟩
      obtain ⟨⟨key, name⟩, he, rfl⟩ := List.mem_map.mp hmem
      obtain ⟨hkey, ⟨-, rfl⟩ | ⟨-, hnew⟩⟩ := mem_assign he
      · exact hfirst hkey
      · exact hnew (h _ List.mem_cons_self hplain)
    · refine List.nodup_cons.mpr ⟨fun hmem => ?_, ih hdistinct fun key hkey hplain =>
        List.mem_cons_of_mem _ (hrest key hkey hplain)⟩
      obtain ⟨⟨key, name⟩, he, rfl⟩ := List.mem_map.mp hmem
      obtain ⟨hkey, ⟨hplain, rfl⟩ | ⟨-, hnew⟩⟩ := mem_assign he
      · exact freeName_not_mem _ _ (hrest _ hkey hplain)
      · exact hnew List.mem_cons_self

theorem keys_ofKeys (keys : List String) : (ofKeys keys).keys = keys := keys_assign _ keys

theorem nodup_ofKeys (distinct : keys.Nodup) : ((ofKeys keys).map Prod.snd).Nodup :=
  nodup_assign distinct fun _ hkey hplain => List.mem_filter.mpr ⟨hkey, hplain⟩

theorem exists_lookup_ofKeys (h : key ∈ keys) : ∃ name, (ofKeys keys).lookup key = some name :=
  Entries.exists_lookup ((keys_ofKeys keys).symm ▸ h)

theorem find?_ofKeys (distinct : keys.Nodup) (h : (ofKeys keys).lookup key = some name) :
    (ofKeys keys).find? (fun e => e.2 == name) = some (key, name) := by
  have hmem := Entries.mem_of_lookup h
  have hnames := nodup_ofKeys distinct
  generalize ofKeys keys = names at hmem hnames
  induction names with
  | nil => simp at hmem
  | cons e rest ih =>
    simp only [List.map_cons, List.nodup_cons] at hnames
    rcases List.mem_cons.mp hmem with rfl | htail
    · simp
    · have hne : e.2 ≠ name := by
        rintro rfl
        exact hnames.1 (List.mem_map.mpr ⟨_, htail, rfl⟩)
      simpa [hne] using ih htail hnames.2

theorem lookup_ofKeys_injective (distinct : keys.Nodup) {other : String}
    (h : (ofKeys keys).lookup key = some name) (ho : (ofKeys keys).lookup other = some name) :
    other = key := by
  have hfound := (find?_ofKeys distinct ho).symm.trans (find?_ofKeys distinct h)
  exact congrArg Prod.fst (Option.some.inj hfound)

theorem lookup_ofKeys (h : key ∈ keys) : (ofKeys keys).lookup key = some (ofKey keys key) := by
  obtain ⟨name, hname⟩ := exists_lookup_ofKeys h
  rw [ofKey, hname, Option.getD_some]

theorem ofKey_injective (distinct : keys.Nodup) {other : String} (h : key ∈ keys) (ho : other ∈ keys)
    (heq : ofKey keys other = ofKey keys key) : other = key :=
  lookup_ofKeys_injective distinct (lookup_ofKeys h) (heq ▸ lookup_ofKeys ho)

/-- Underscores are added for as long as the name is taken. -/
inductive Frees (taken : List String) : String → String → Prop where
  | free {name : String} (h : name ∉ taken) : Frees taken name name
  | taken {name freed : String} (h : name ∈ taken) (next : Frees taken (name ++ "_") freed) :
    Frees taken name freed

/-- The names that are given to keys one by one; each new name is taken for the keys that follow. -/
inductive Assigns : List String → List String → Entries String → Prop where
  | nil {taken : List String} : Assigns taken [] []
  | plain {taken rest : List String} {key : String} {names : Entries String} (h : isPlain key = true)
    (next : Assigns taken rest names) : Assigns taken (key :: rest) ((key, key) :: names)
  | other {taken rest : List String} {key name : String} {names : Entries String}
    (h : isPlain key = false) (freed : Frees taken (stem key ++ "_") name)
    (next : Assigns (name :: taken) rest names) : Assigns taken (key :: rest) ((key, name) :: names)

/-- The steps that are allowed suffice. -/
theorem frees_freeName {n : Nat} (h : freeName taken name n ∉ taken) :
    Frees taken name (freeName taken name n) := by
  induction n generalizing name with
  | zero => exact .free h
  | succ n ih =>
    rw [freeName] at h ⊢
    split
    · next hname =>
      rw [if_pos hname] at h
      exact .taken (by simpa using hname) (ih h)
    · next hname => exact .free (by simpa using hname)

theorem assigns_assign (taken keys : List String) : Assigns taken keys (assign taken keys) := by
  induction keys generalizing taken with
  | nil => exact .nil
  | cons key rest ih =>
    unfold assign
    split
    · next hplain => exact .plain hplain (ih taken)
    · next hplain => exact .other (by simpa using hplain) (frees_freeName (freeName_not_mem _ _)) (ih _)

theorem Frees.exists_underscores {freed : String} (h : Frees taken name freed) :
    ∃ n, freed = name ++ underscores n := by
  induction h with
  | free => exact ⟨0, by simp [underscores]⟩
  | taken _ _ ih =>
    obtain ⟨n, rfl⟩ := ih
    exact ⟨n + 1, (append_underscores_succ _ n).symm⟩

/-- What is left of a key without its leading underscores, or a word in its place if nothing is. -/
inductive Bare : String → String → Prop where
  | rest (m : Nat) {rest : String} (start : rest.toList.head? ≠ some '_') (h : rest ≠ "") :
    Bare (underscores m ++ rest) rest
  | nothing (m : Nat) : Bare (underscores m) "field"

theorem bare_stem (key : String) : Bare key (stem key) := by
  have hsplit : key = underscores (key.toList.takeWhile (· == '_')).length ++
      String.ofList (key.toList.dropWhile (· == '_')) := by
    refine String.toList_injective ?_
    have hmarks : key.toList.takeWhile (· == '_') =
        List.replicate (key.toList.takeWhile (· == '_')).length '_' := by
      refine List.eq_replicate_of_mem fun c hc => ?_
      simpa using List.all_eq_true.mp List.all_takeWhile c hc
    simp only [underscores, String.toList_append, String.toList_ofList]
    rw [← hmarks, List.takeWhile_append_dropWhile]
  have hstart : (key.toList.dropWhile (· == '_')).head? ≠ some '_' := fun h => by
    simpa [h] using List.head?_dropWhile_not (· == '_') key.toList
  unfold stem
  dsimp only
  generalize key.toList.dropWhile (· == '_') = rest at hsplit hstart
  generalize (key.toList.takeWhile (· == '_')).length = m at hsplit
  subst hsplit
  split
  · next h =>
    obtain rfl := List.isEmpty_iff.mp h
    simpa using Bare.nothing m
  · next h =>
    refine .rest m (by simpa using hstart) fun heq => h ?_
    simpa using congrArg String.toList heq

/-- A bare word may be the first part of a name. -/
theorem Bare.exists_start {bare : String} (h : Bare key bare) :
    ∃ c, bare.toList.head? = some c ∧ c ≠ '_' := by
  cases h with
  | @rest m _ start hne =>
    cases hlist : bare.toList with
    | nil => exact absurd (String.toList_injective (by simpa using hlist)) hne
    | cons c _ =>
      refine ⟨c, rfl, fun heq => start ?_⟩
      rw [hlist, heq, List.head?_cons]
  | nothing m => exact ⟨'f', rfl, by decide⟩

/-- How a key that is no attribute name itself is named instead. -/
structure Replaces (keys : List String) (key name : String) : Prop where
  new : ∀ other ∈ keys, isPlain other = true → name ≠ other
  start : name.toList.head? ≠ some '_'
  word : name ∉ keywords
  own : name ∉ inherited
  written : ∃ bare n, Bare key bare ∧ name = bare ++ underscores (n + 1)

/-- No word of the language and no inherited name ends with an underscore. -/
theorem getLast?_of_reserved {word : String} (h : word ∈ keywords ++ inherited) :
    word.toList.getLast? ≠ some '_' := by
  have hall : ∀ word ∈ keywords ++ inherited, word.toList.getLast? ≠ some '_' := by decide +kernel
  exact hall word h

theorem getLast?_append_underscores (bare : String) (n : Nat) :
    (bare ++ underscores (n + 1)).toList.getLast? = some '_' := by
  simp [underscores, List.replicate_succ', List.getLast?_append]

/-- A bare word with underscores behind it is free for use wherever it is new. -/
theorem replaces_of_bare {bare : String} {n : Nat} (h : Bare key bare)
    (new : ∀ other ∈ keys, isPlain other = true → bare ++ underscores (n + 1) ≠ other) :
    Replaces keys key (bare ++ underscores (n + 1)) where
  new := new
  start := by
    obtain ⟨c, hc, hne⟩ := h.exists_start
    simpa [List.head?_append, hc] using hne
  word hmem := getLast?_of_reserved (List.mem_append_left _ hmem) (getLast?_append_underscores bare n)
  own hmem := getLast?_of_reserved (List.mem_append_right _ hmem) (getLast?_append_underscores bare n)
  written := ⟨bare, n, h, rfl⟩

/-- A name that is assigned to a key that is not plain is its stem with underscores. -/
theorem Assigns.exists_written {names : Entries String} (h : Assigns taken keys names)
    (hmem : (key, name) ∈ names) (hother : isPlain key = false) :
    ∃ n, name = stem key ++ underscores (n + 1) := by
  induction h with
  | nil => simp at hmem
  | plain hplain _ ih =>
    rcases List.mem_cons.mp hmem with heq | htail
    · obtain ⟨rfl, rfl⟩ := Prod.mk.inj heq
      simp [hplain] at hother
    · exact ih htail
  | other _ freed _ ih =>
    rcases List.mem_cons.mp hmem with heq | htail
    · obtain ⟨rfl, rfl⟩ := Prod.mk.inj heq
      obtain ⟨n, hn⟩ := freed.exists_underscores
      exact ⟨n, hn.trans (append_underscores_succ _ n).symm⟩
    · exact ih htail

/-- Every key is given one name, and no two keys the same. Plain keys stand for themselves; any other key
is written without its leading underscores, with as many behind it as make it new. -/
theorem ofKeys_distinguishes (distinct : keys.Nodup) :
    Assigns (keys.filter isPlain) keys (ofKeys keys) ∧ (ofKeys keys).keys = keys ∧
    (∀ key ∈ keys, ∃ name, (ofKeys keys).lookup key = some name ∧ (isPlain key = true → name = key) ∧
      (isPlain key = false → Replaces keys key name)) ∧
    ∀ key other name, (ofKeys keys).lookup key = some name → (ofKeys keys).lookup other = some name →
      other = key := by
  have hassigns := assigns_assign (keys.filter isPlain) keys
  refine ⟨hassigns, keys_ofKeys keys, fun key hkey => ?_, fun key other name h ho =>
    lookup_ofKeys_injective distinct h ho⟩
  obtain ⟨name, hname⟩ := exists_lookup_ofKeys hkey
  have hmem := Entries.mem_of_lookup hname
  refine ⟨name, hname, fun hplain => ?_, fun hother => ?_⟩
  · rcases (mem_assign hmem).2 with ⟨-, heq⟩ | ⟨hother, -⟩
    · exact heq
    · simp [hplain] at hother
  · obtain ⟨n, rfl⟩ := hassigns.exists_written hmem hother
    refine replaces_of_bare (bare_stem key) fun other ho hplain heq => ?_
    rcases (mem_assign hmem).2 with ⟨hplain', -⟩ | ⟨-, hnew⟩
    · simp [hother] at hplain'
    · exact hnew (List.mem_filter.mpr ⟨heq ▸ ho, heq ▸ hplain⟩)

/-- Keys that come to the same stem, one of which meets a key that is there already. -/
theorem ofKeys_distinguishes_clashing :
    let keys := ["_id", "id_", "__id", "class", "schema", "_", "__"]
    keys.Nodup ∧ ofKeys keys = [("_id", "id__"), ("id_", "id_"), ("__id", "id___"), ("class", "class_"),
      ("schema", "schema_"), ("_", "field_"), ("__", "field__")] ∧
    Assigns (keys.filter isPlain) keys (ofKeys keys) ∧ (ofKeys keys).keys = keys ∧
    (∀ key ∈ keys, ∃ name, (ofKeys keys).lookup key = some name ∧ (isPlain key = true → name = key) ∧
      (isPlain key = false → Replaces keys key name)) ∧
    ∀ key other name, (ofKeys keys).lookup key = some name → (ofKeys keys).lookup other = some name →
      other = key := by
  intro keys
  have distinct : keys.Nodup := by decide
  exact ⟨distinct, by decide +kernel, ofKeys_distinguishes distinct⟩

end AttributeName

end CheckedModels
