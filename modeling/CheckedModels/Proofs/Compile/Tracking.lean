import CheckedModels.Proofs.Compile.Composition
import CheckedModels.Proofs.Compile.Linking
import CheckedModels.Proofs.Compile.Survey
import CheckedModels.Proofs.Registry.FreshKey

/-! The invariant of a compilation under way, beside the survey of the same declarations: what is
registered, which definitions are still open, and what the finished ones refer to. -/
namespace CheckedModels

/-- What is registered for a declaration before anything that it refers to is compiled. -/
def Declaration.opened : Declaration → Definition
  | .union u => .union { declaredName := some u.name }
  | .enum e => e.definition
  | .scalar e => e.definition
  | d => .model { name := d.name }

theorem Declaration.opened_of_isModel (d : Declaration) (h : d.isModel = true) :
    d.opened = .model { name := d.name } := by
  cases d with
  | object | input | interface => rfl
  | union | enum | scalar => cases h

namespace Survey

/-- Every name is reached once, by the first declaration of the name within its category. -/
structure Sound (s : Scope) (v : Survey) : Prop where
  distinct : v.names.Nodup
  found : ∀ e ∈ v.reached, s.declarations.findKind? e.2.kind e.1 = some e.2

theorem Sound.name_eq {s : Scope} {v : Survey} (h : v.Sound s) {e : String × Declaration}
    (he : e ∈ v.reached) : e.2.name = e.1 := (Declarations.findKind?_mem (h.found e he)).2.1

theorem Sound.eq_of_mem {s : Scope} {v : Survey} (h : v.Sound s) {a b : String × Declaration}
    (ha : a ∈ v.reached) (hb : b ∈ v.reached) (heq : a.1 = b.1) : a = b := by
  have hl := Entries.lookup_of_mem h.distinct ha
  rw [heq, Entries.lookup_of_mem h.distinct hb] at hl
  exact Prod.ext heq (Option.some.inj hl).symm

theorem Sound.add {s : Scope} {v : Survey} (h : v.Sound s) {d : Declaration}
    (hd : s.declarations.findKind? d.kind d.name = some d) (new : d.name ∉ v.names) :
    (v.add d).Sound s where
  distinct := by
    rw [names_add]
    refine List.nodup_append.mpr ⟨h.distinct, by simp, ?_⟩
    intro a ha b hb hab
    obtain rfl : b = d.name := by simpa using hb
    exact new (hab ▸ ha)
  found e he := by
    rcases List.mem_append.mp he with he | he
    · exact h.found e he
    · obtain rfl : e = (d.name, d) := by simpa using he
      exact hd

/-- The content of a declaration up to the links, with every member of a union accounted for. -/
structure Finished (s : Scope) (config : Config) (names : Entries String) (v : Survey)
    (d : Declaration) (made : Definition) : Prop where
  links : (v.content s config d).Links names made
  members : ∀ m ∈ d.members, (s.declarations.findKind? .object m).isSome → m ∈ v.names

theorem Finished.mono {s : Scope} {config : Config} {names more : Entries String} {v v' : Survey}
    {d : Declaration} {made : Definition} (h : Finished s config names v d made)
    (hn : names <+: more) (hv : v.reached <+: v'.reached) : Finished s config more v' d made where
  links := by
    rw [content_later hv h.members]
    exact h.links.mono hn
  members m hm ho := names_subset hv (h.members m hm ho)

end Survey

namespace Workshop

/-- `under` holds the names of what is still open. -/
structure Tracks (s : Scope) (config : Config) (under : List String) (w : Workshop) (v : Survey) :
    Prop where
  sound : v.Sound s
  notes : w.notes = v.notes
  names : Entries.keys w.names = v.names
  numbered : w.made.Numbered
  registered : w.names.map Prod.snd = w.made.keys
  underway : under ⊆ v.names
  kept : ∀ e ∈ v.reached, ∃ key made, w.names.lookup e.1 = some key ∧ w.made.find? key = some made ∧
    (e.1 ∈ under → made = e.2.opened) ∧ (e.1 ∉ under → v.Finished s config w.names e.2 made)

variable {s : Scope} {config : Config} {under : List String} {w : Workshop} {v : Survey}

theorem tracks_empty : Tracks s config [] {} {} where
  sound := ⟨by simp [Survey.names, Entries.keys], by simp⟩
  notes := rfl
  names := rfl
  numbered := Registry.numbered_empty
  registered := rfl
  underway := by simp
  kept := by simp

namespace Tracks

theorem nodup_keys (h : Tracks s config under w v) : (w.names.map Prod.snd).Nodup := by
  rw [h.registered]
  exact h.numbered.nodup

theorem lookup_isSome (h : Tracks s config under w v) (name : String) :
    (w.names.lookup name).isSome ↔ name ∈ v.names := by
  rw [Entries.lookup_isSome_iff, h.names]

theorem remark (h : Tracks s config under w v) (n : Note) :
    Tracks s config under { w with notes := w.notes ++ [n] } (v.note n) where
  sound := ⟨h.sound.distinct, h.sound.found⟩
  notes := by simp [Survey.note, h.notes]
  names := h.names
  numbered := h.numbered
  registered := h.registered
  underway := h.underway
  kept e he := by
    obtain ⟨key, made, hkey, hmade, hopen, hfin⟩ := h.kept e he
    exact ⟨key, made, hkey, hmade, hopen, fun hn => (hfin hn).mono List.prefix_rfl List.prefix_rfl⟩

theorem eq_of_lookup (h : Tracks s config under w v) {a b key : String}
    (ha : w.names.lookup a = some key) (hb : w.names.lookup b = some key) : a = b := by
  rw [← nameOf_of_lookup h.nodup_keys ha, nameOf_of_lookup h.nodup_keys hb]

theorem mem_keys_of_lookup (h : Tracks s config under w v) {name key : String}
    (hk : w.names.lookup name = some key) : key ∈ w.made.keys := by
  rw [← h.registered]
  exact List.mem_map.mpr ⟨_, Entries.mem_of_lookup hk, rfl⟩

end Tracks

namespace Tracks

/-- A new declaration is registered, and open from then on. -/
theorem register (h : Tracks s config under w v) {d : Declaration}
    (hd : s.declarations.findKind? d.kind d.name = some d) (new : d.name ∉ v.names) :
    ∃ w', Build.register d.name d.opened w = .ok (w.made.freshKey d.name, w') ∧
      w.names <+: w'.names ∧ w'.names.lookup d.name = some (w.made.freshKey d.name) ∧
      Tracks s config (d.name :: under) w' (v.add d) := by
  have hnew : d.name ∉ Entries.keys w.names := h.names ▸ new
  have hfresh := h.numbered.freshKey_not_mem d.name
  have hmade := h.numbered.introduce_entries d.name d.opened
  refine ⟨_, by rw [Build.register, if_neg hnew]; rfl, List.prefix_append _ _, ?_, ?_⟩
  · simp [List.lookup_append, Entries.lookup_eq_none_iff.mpr hnew]
  refine ⟨h.sound.add hd new, h.notes, ?_, h.numbered.introduce _ _, ?_, ?_, ?_⟩
  · simpa [Entries.keys] using h.names
  · have hkeys := h.registered
    simp only [Registry.keys, Entries.keys] at hkeys
    simp [Registry.keys, Entries.keys, hmade, hkeys]
  · rw [Survey.names_add]
    exact List.cons_subset.mpr ⟨by simp, fun n hn => List.mem_append_left _ (h.underway hn)⟩
  · intro e he
    rcases List.mem_append.mp he with he | he
    · obtain ⟨key, made, hkey, hfind, hopen, hfin⟩ := h.kept e he
      have hne : e.1 ≠ d.name := fun heq => new (heq ▸ Entries.mem_keys_of_mem he)
      refine ⟨key, made, ?_, ?_, ?_, ?_⟩
      · simp [List.lookup_append, hkey]
      · rw [Registry.find?, hmade, List.lookup_append]
        simpa [Registry.find?] using Or.inl hfind
      · intro hu
        exact hopen ((List.mem_cons.mp hu).resolve_left hne)
      · intro hu
        have hnot : e.1 ∉ under := fun hm => hu (List.mem_cons_of_mem _ hm)
        exact (hfin hnot).mono (List.prefix_append _ _) (List.prefix_append _ _)
    · obtain rfl : e = (d.name, d) := by simpa using he
      refine ⟨w.made.freshKey d.name, d.opened, ?_, ?_, fun _ => rfl, ?_⟩
      · simp [List.lookup_append, Entries.lookup_eq_none_iff.mpr hnew]
      · rw [Registry.find?, hmade, List.lookup_append,
          Entries.lookup_eq_none_iff.mpr (show _ ∉ Entries.keys w.made.entries from hfresh)]
        simp
      · intro hu
        exact absurd List.mem_cons_self hu

theorem finish {name key : String} (h : Tracks s config (name :: under) w v) (hnot : name ∉ under)
    {d : Declaration} (hd : (name, d) ∈ v.reached) (hkey : w.names.lookup name = some key)
    {made : Definition} (hfin : v.Finished s config w.names d made) :
    Tracks s config under { w with made := w.made.replace key made } v := by
  have hmem := h.mem_keys_of_lookup hkey
  refine ⟨h.sound, h.notes, h.names, h.numbered.replace hmem _, ?_, ?_, ?_⟩
  · rw [Registry.keys_replace hmem]
    exact h.registered
  · exact fun n hn => h.underway (List.mem_cons_of_mem _ hn)
  · intro e he
    by_cases heq : e.1 = name
    · have hed : e = (name, d) := h.sound.eq_of_mem he hd heq
      subst hed
      refine ⟨key, made, hkey, Entries.lookup_put_self _ _ _, ?_, fun _ => hfin⟩
      exact fun hu => absurd hu hnot
    · obtain ⟨other, there, hother, hfind, hopen, hthere⟩ := h.kept e he
      have hne : other ≠ key := fun hk => heq (h.eq_of_lookup hother (hk ▸ hkey))
      refine ⟨other, there, hother, ?_, fun hu => hopen (List.mem_cons_of_mem _ hu), ?_⟩
      · rw [Registry.find?, Registry.replace, Entries.lookup_put_of_ne _ _ hne]
        exact hfind
      · exact fun hu => hthere fun hm => hu ((List.mem_cons.mp hm).resolve_left heq)

/-- What is complete as it was registered is no longer open. -/
theorem close {name : String} (h : Tracks s config (name :: under) w v) {d : Declaration}
    (hd : (name, d) ∈ v.reached) (hfin : v.Finished s config w.names d d.opened) :
    Tracks s config under w v := by
  refine ⟨h.sound, h.notes, h.names, h.numbered, h.registered, ?_, ?_⟩
  · exact fun n hn => h.underway (List.mem_cons_of_mem _ hn)
  intro e he
  obtain ⟨key, made, hkey, hfind, hopen, hthere⟩ := h.kept e he
  refine ⟨key, made, hkey, hfind, fun hu => hopen (List.mem_cons_of_mem _ hu), fun hu => ?_⟩
  by_cases heq : e.1 = name
  · have hed : e = (name, d) := h.sound.eq_of_mem he hd heq
    subst hed
    rw [hopen List.mem_cons_self]
    exact hfin
  · exact hthere fun hm => hu ((List.mem_cons.mp hm).resolve_left heq)

/-- Whether a key is that of a model can be told before the model is finished. -/
theorem isSome_model? (h : Tracks s config under w v) {name key : String}
    (hkey : w.names.lookup name = some key) : (w.made.model? key).isSome = v.hasModel name := by
  obtain ⟨d, hd⟩ := Entries.exists_lookup (h.names ▸ Entries.mem_keys_of_mem
    (Entries.mem_of_lookup hkey) : name ∈ v.names)
  obtain ⟨other, made, hother, hfind, hopen, hfin⟩ := h.kept (name, d) (Entries.mem_of_lookup hd)
  obtain rfl : other = key := Option.some.inj (hother.symm.trans hkey)
  simp only [Registry.model?, hfind, Survey.hasModel, hd, Option.map_some, Option.getD_some]
  by_cases hu : name ∈ under
  · rw [hopen hu]
    cases d <;> rfl
  · have hlinks := (hfin hu).links
    cases d <;> cases hlinks <;> rfl

end Tracks

end Workshop

end CheckedModels
