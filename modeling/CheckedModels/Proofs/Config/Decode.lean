import CheckedModels.Config.Decode
import CheckedModels.Proofs.Entries

/-! Which data is a configuration, and which data no configuration error can be written for. -/
namespace CheckedModels

namespace Config

open Yaml

/-- What may stand for the identifier: null, or text. -/
inductive Chooses : Data → IdentifierChoice → Prop where
  | null : Chooses .null .disabled
  | text {a : Atom} {s : Text} (h : textOf? a = some s) : Chooses (.atom a) (.field s)

/-- What the settings of a type say about its identifier: nothing, or a choice under one of the keys for
it, which is then the only key. -/
inductive Settles : List (Atom × Data) → IdentifierChoice → Prop where
  | automatic : Settles [] .automatic
  | written {fields : List (Atom × Data)} {name : String} {d : Data} {c : IdentifierChoice}
    (hname : name ∈ identifierKeys) (only : ∀ e ∈ fields, e.1 = .scalar (.str (.whole name)))
    (h : entryOf? fields name = some d) (hd : Chooses d c) : Settles fields c

/-- The settings of one type, under its name. -/
def Reads (e : Atom × Data) (s : Text × TypeConfig) : Prop :=
  textOf? e.1 = some s.1 ∧ ∃ fields, e.2 = .dict fields ∧ Settles fields s.2.identifier

/-- The settings under `types`. What stands for nothing there is as good as left out. -/
def listing? (entries : List (Atom × Data)) : Option (List (Atom × Data)) :=
  match entryOf? entries "types" with
  | none => some []
  | some (.dict listed) => some listed
  | some d => if d.isBlank then some [] else none

/-- The configuration that data stands for: nothing at all is the empty one, and a mapping with no other
key than `types` has the settings that are listed there. Of settings whose names read alike the last count. -/
inductive Configures : Data → Config → Prop where
  | nothing : Configures .null {}
  | listed {entries listed : List (Atom × Data)} {settings : List (Text × TypeConfig)}
    (only : ∀ e ∈ entries, typesKey e.1 = true) (h : listing? entries = some listed)
    (hs : List.Forall₂ Reads listed settings) :
    Configures (.dict entries) ⟨Entries.ofPairsBy (· == ·) settings⟩

/-- Beside well-formed `types` there is a key that is no text, so that the unknown keys cannot be listed. -/
def Unlistable (d : Data) : Prop :=
  ∃ entries listed, d = .dict entries ∧ listing? entries = some listed ∧ (∀ e ∈ listed, isDict e.2 = true) ∧
    ∃ e ∈ entries, ∀ s, e.1 ≠ .scalar (.str s)

/-- The first type whose settings are no mapping has a name that cannot be written. -/
def Unwritable (d : Data) : Prop :=
  ∃ entries before name x after, d = .dict entries ∧ listing? entries = some (before ++ (name, x) :: after) ∧
    (∀ e ∈ before, isDict e.2 = true) ∧ isDict x = false ∧ name.display? = none

variable {d : Data} {entries listed : List (Atom × Data)} {c : Config} {label : String}

theorem readIdentifier_eq_ok_iff {choice : IdentifierChoice} :
    readIdentifier d = .ok choice ↔ Chooses d choice := by
  constructor
  · intro h
    unfold readIdentifier at h
    split at h
    · obtain rfl := Except.ok.inj h
      exact .null
    · split at h
      · next htext =>
        obtain rfl := Except.ok.inj h
        exact .text htext
      · cases h
    · cases h
  · rintro (_ | ⟨htext⟩)
    · rfl
    · unfold readIdentifier
      split
      · next heq =>
        cases heq
        simp [textOf?] at htext
      · next a _ heq =>
        cases heq
        rw [htext]
      · next h => exact absurd rfl (h _)

theorem strayKey_eq_none_iff {used : Option String} {a : Atom} :
    strayKey used a = none ↔ ∃ s, a = .scalar (.str (.whole s)) ∧ used = some s := by
  unfold strayKey
  split
  · next s => simp
  · next h => simpa using fun s heq => absurd heq (h s)

/-- The key that the identifier is taken from. -/
def usedKey? (fields : List (Atom × Data)) : Option String :=
  identifierKeys.find? fun key => (entryOf? fields key).isSome

theorem exists_of_usedKey? {fields : List (Atom × Data)} {name : String} (h : usedKey? fields = some name) :
    ∃ x, entryOf? fields name = some x :=
  Option.isSome_iff_exists.mp (List.find?_some (p := fun key => (entryOf? fields key).isSome) h)

theorem readEntry_dict_eq_ok_iff {fields : List (Atom × Data)} {t : TypeConfig} : readEntry (.dict fields) = .ok t ↔
    (∀ e ∈ fields, ∃ s, e.1 = .scalar (.str (.whole s)) ∧ usedKey? fields = some s) ∧
      (((usedKey? fields).bind (entryOf? fields)).map readIdentifier).getD (.ok .automatic) = .ok t.identifier := by
  have hstrays : (fields.filterMap fun e => strayKey (usedKey? fields) e.1) = [] ↔
      ∀ e ∈ fields, ∃ s, e.1 = .scalar (.str (.whole s)) ∧ usedKey? fields = some s := by
    simp only [List.filterMap_eq_nil_iff, strayKey_eq_none_iff]
  rw [← hstrays]
  by_cases hbroken : (fields.any fun e => isBrokenText e.1) = true
  · constructor
    · intro h
      simp only [readEntry, hbroken, if_true] at h
      cases h
    · rintro ⟨hnone, -⟩
      obtain ⟨e, he, hbroken⟩ := List.any_eq_true.mp hbroken
      obtain ⟨s, hs, -⟩ := hstrays.mp hnone e he
      rw [hs] at hbroken
      cases hbroken
  · simp only [readEntry, hbroken, Bool.false_eq_true, if_false, usedKey?]
    generalize (((identifierKeys.find? fun key => (entryOf? fields key).isSome).bind (entryOf? fields)).map
      readIdentifier).getD (.ok .automatic) = choice
    generalize (fields.filterMap fun e =>
      strayKey (identifierKeys.find? fun key => (entryOf? fields key).isSome) e.1) = strays
    obtain ⟨chosen⟩ := t
    cases choice <;> cases strays <;> simp

theorem entryOf?_eq_none {fields : List (Atom × Data)} {name other : String}
    (only : ∀ e ∈ fields, e.1 = .scalar (.str (.whole name))) (hne : other ≠ name) : entryOf? fields other = none := by
  induction fields with
  | nil => rfl
  | cons e rest ih =>
    obtain ⟨a, x⟩ := e
    obtain rfl : a = .scalar (.str (.whole name)) := only _ List.mem_cons_self
    rw [entryOf?, if_neg (by simpa using hne.symm)]
    exact ih fun e he => only e (List.mem_cons_of_mem _ he)

theorem readEntry_eq_ok_iff {t : TypeConfig} :
    readEntry d = .ok t ↔ ∃ fields, d = .dict fields ∧ Settles fields t.identifier := by
  constructor
  · intro h
    cases d with
    | atom | list | set => cases h
    | dict fields =>
      refine ⟨fields, rfl, ?_⟩
      obtain ⟨honly, hchoice⟩ := readEntry_dict_eq_ok_iff.mp h
      cases hused : usedKey? fields with
      | none =>
        have hempty : fields = [] := by
          refine List.eq_nil_iff_forall_not_mem.mpr fun e he => ?_
          obtain ⟨s, -, hs⟩ := honly e he
          rw [hused] at hs
          cases hs
        have hautomatic : t.identifier = .automatic := by
          rw [hused] at hchoice
          exact (Except.ok.inj hchoice).symm
        rw [hempty, hautomatic]
        exact .automatic
      | some name =>
        have hname : name ∈ identifierKeys := List.mem_of_find?_eq_some hused
        obtain ⟨x, hx⟩ := exists_of_usedKey? hused
        refine .written hname (fun e he => ?_) hx (readIdentifier_eq_ok_iff.mp ?_)
        · obtain ⟨s, heq, hs⟩ := honly e he
          rw [heq, Option.some.inj (hused.symm.trans hs)]
        · simpa [hused, hx] using hchoice
  · obtain ⟨choice⟩ := t
    rintro ⟨fields, rfl, hsettles⟩
    refine readEntry_dict_eq_ok_iff.mpr ?_
    dsimp only at hsettles ⊢
    cases hsettles with
    | automatic => exact ⟨nofun, rfl⟩
    | @written _ name x _ hname only hx hd =>
      have hused : usedKey? fields = some name := by
        obtain ⟨found, hfound⟩ : ∃ found, usedKey? fields = some found :=
          Option.isSome_iff_exists.mp (List.find?_isSome.mpr ⟨name, hname, by simp [hx]⟩)
        obtain ⟨y, hy⟩ := exists_of_usedKey? hfound
        by_cases hne : found = name
        · exact hne ▸ hfound
        · cases (entryOf?_eq_none only hne).symm.trans hy
      exact ⟨fun e he => ⟨name, only e he, hused⟩, by simpa [hused, hx] using readIdentifier_eq_ok_iff.mpr hd⟩

theorem readName_eq_ok_iff {a : Atom} {s : Text} : readName a = .ok s ↔ textOf? a = some s := by
  unfold readName
  split <;> simp_all

theorem readNames_eq_ok_iff {read : List (Atom × TypeConfig)} {settings : List (Text × TypeConfig)} :
    readNames read = .ok settings ↔
      List.Forall₂ (fun e s => textOf? e.1 = some s.1 ∧ e.2 = s.2) read settings := by
  induction read generalizing settings with
  | nil => simp [readNames, eq_comm]
  | cons e rest ih =>
    obtain ⟨a, t⟩ := e
    have hname (s : Text) : readName a = .ok s ↔ textOf? a = some s := readName_eq_ok_iff
    rw [List.forall₂_cons_left_iff]
    simp only [← ih, ← hname, readNames]
    rcases readName a with issues | s <;> rcases readNames rest with more | settled
    all_goals simp
    exact eq_comm

/-- The settings of one type, still under the key that they have. -/
def readSettings (label : Option String) (e : Atom × Data) : Except ConfigError (Atom × TypeConfig) :=
  ((readEntry e.2).map fun t => (e.1, t)).mapError (.invalid label "TypeConfig")

theorem ofEntries_eq (label : Option String) (entries : List (Atom × Data)) : ofEntries label entries =
    entries.mapM (readSettings label) >>= fun read =>
      ((readNames read).map fun types => ⟨Entries.ofPairsBy (· == ·) types⟩).mapError
        (.invalid label "CompileConfig") := by
  unfold ofEntries
  refine congr (congrArg _ (congrArg (fun f => List.mapM f entries) (funext fun e => ?_))) (funext fun read => ?_)
  · unfold readSettings
    cases readEntry e.2 <;> rfl
  · cases readNames read <;> rfl

theorem ofEntries_eq_ok_iff {label : Option String} : ofEntries label listed = .ok c ↔
    ∃ settings, List.Forall₂ Reads listed settings ∧ c = ⟨Entries.ofPairsBy (· == ·) settings⟩ := by
  have hreads (e : Atom × Data) (s : Text × TypeConfig) : Reads e s ↔
      ∃ p, readSettings label e = .ok p ∧ textOf? p.1 = some s.1 ∧ p.2 = s.2 := by
    rw [Reads, ← readEntry_eq_ok_iff]
    unfold readSettings
    rcases readEntry e.2 with issues | t <;> simp [Except.map, Except.mapError, and_comm]
  have hsettings (settings : List (Text × TypeConfig)) : List.Forall₂ Reads listed settings ↔
      ∃ ps, listed.mapM (readSettings label) = .ok ps ∧ readNames ps = .ok settings := by
    simp only [Entries.mapM_eq_ok_iff, readNames_eq_ok_iff, Entries.forall₂_comp_iff]
    rw [show Reads = _ from funext fun e => funext fun s => propext (hreads e s)]
  simp only [hsettings, ofEntries_eq]
  rcases listed.mapM (readSettings label) with e | ps
  · simp [Bind.bind, Except.bind]
  · simp only [Bind.bind, Except.bind, Except.ok.injEq, exists_eq_left']
    rcases readNames ps with issues | settings <;> simp [Except.map, Except.mapError, eq_comm]

theorem ofData_dict (label : String) (entries : List (Atom × Data)) : ofData label (.dict entries) =
    match listing? entries with
    | none => .error (.config (.typesNotMapping label))
    | some listed =>
      match listed.find? fun e => !isDict e.2 with
      | some (name, _) =>
        match name.display? with
        | some name => .error (.config (.entryNotMapping label name))
        | none => .error .unwritableName
      | none => unknownKeys label (entries.map Prod.fst) >>= fun _ =>
        (ofEntries (some label) listed).mapError .config := by
  unfold ofData listing?
  dsimp only
  rcases entryOf? entries "types" with _ | d
  · rfl
  · rcases d with a | items | listed | members
    case dict =>
      dsimp only [Option.getD_some]
      rcases listed.find? fun e => !isDict e.2 with _ | ⟨name, x⟩
      · rfl
      · rcases name.display? <;> rfl
    all_goals
      dsimp only [Option.getD_some]
      split <;> rfl

section UnknownKeys

variable {keys : List Atom}

/-- The name that a key is listed under. -/
def nameOf? : Atom → Option Text
  | .scalar (.str s) => some s
  | _ => none

theorem mapM_nameOf?_eq_none_iff : keys.mapM nameOf? = none ↔ ∃ a ∈ keys, nameOf? a = none := by
  induction keys with
  | nil => simp
  | cons a rest ih =>
    rw [List.mapM_cons, List.exists_mem_cons_iff, ← ih]
    rcases nameOf? a with _ | s <;> rcases rest.mapM nameOf? with _ | more <;> simp

theorem nameOf?_eq_none_iff {a : Atom} : nameOf? a = none ↔ ∀ s, a ≠ .scalar (.str s) := by
  unfold nameOf?
  split
  · next s => simp
  · next h => simpa using h

theorem unknownKeys_eq (label : String) (keys : List Atom) : unknownKeys label keys =
    if (keys.filter fun a => !typesKey a) = [] then .ok ()
    else
      match (keys.filter fun a => !typesKey a).mapM nameOf? with
      | some names => .error (.config (.unknownKeys label (names.mergeSort Text.le)))
      | none => .error .keysNotText := by
  unfold unknownKeys
  simp only [List.isEmpty_iff]
  congr! 3

theorem unknownKeys_eq_ok_iff : unknownKeys label keys = .ok () ↔ ∀ a ∈ keys, typesKey a = true := by
  have hnone : (keys.filter fun a => !typesKey a) = [] ↔ ∀ a ∈ keys, typesKey a = true := by simp
  rw [unknownKeys_eq, ← hnone]
  split
  · next h => exact iff_of_true rfl h
  · next h => split <;> exact iff_of_false nofun h

theorem unknownKeys_eq_keysNotText_iff :
    unknownKeys label keys = .error .keysNotText ↔ ∃ a ∈ keys, ∀ s, a ≠ .scalar (.str s) := by
  have hnone : (keys.filter fun a => !typesKey a).mapM nameOf? = none ↔ ∃ a ∈ keys, ∀ s, a ≠ .scalar (.str s) := by
    simp only [mapM_nameOf?_eq_none_iff, nameOf?_eq_none_iff, List.mem_filter]
    refine exists_congr fun a => ⟨fun h => ⟨h.1.1, h.2⟩, fun h => ⟨⟨h.1, ?_⟩, h.2⟩⟩
    unfold typesKey
    split
    · next s => exact absurd rfl (h.2 s)
    · rfl
  rw [unknownKeys_eq, ← hnone]
  split
  · next hempty => simp [hempty]
  · split <;> simp [*]

theorem unknownKeys_ne_unwritableName : unknownKeys label keys ≠ .error .unwritableName := by
  rw [unknownKeys_eq]
  split
  · simp
  · split <;> simp

end UnknownKeys

/-- The settings of all types are read if each is a mapping, and only then keys beside `types` count. -/
theorem ofData_listed (h : listing? entries = some listed) (hdicts : ∀ e ∈ listed, isDict e.2 = true) :
    ofData label (.dict entries) = unknownKeys label (entries.map Prod.fst) >>= fun _ =>
      (ofEntries (some label) listed).mapError .config := by
  have hnone : listed.find? (fun e => !isDict e.2) = none := by simpa using hdicts
  rw [ofData_dict, h]
  simp only [hnone]

theorem Reads.isDict {e : Atom × Data} {s : Text × TypeConfig} (h : Reads e s) : isDict e.2 = true := by
  obtain ⟨-, fields, heq, -⟩ := h
  rw [heq]
  rfl

/-- The first settings that are no mapping are named. -/
theorem ofData_entryNotMapping {before after : List (Atom × Data)} {name : Atom} {x : Data}
    (h : listing? entries = some (before ++ (name, x) :: after)) (hbefore : ∀ e ∈ before, isDict e.2 = true)
    (hx : isDict x = false) : ofData label (.dict entries) =
      .error ((name.display?.map fun name => .config (.entryNotMapping label name)).getD .unwritableName) := by
  have hfind : (before ++ (name, x) :: after).find? (fun e => !isDict e.2) = some (name, x) :=
    List.find?_eq_some_iff_append.mpr ⟨by simp [hx], before, after, rfl, by simpa using hbefore⟩
  rw [ofData_dict, h]
  simp only [hfind]
  cases name.display? <;> rfl

/-- The settings of all types are mappings, or one is not, or `types` is no mapping. -/
theorem listing?_cases (entries : List (Atom × Data)) :
    (∃ listed, listing? entries = some listed ∧ ∀ e ∈ listed, isDict e.2 = true) ∨
    (∃ before name x after, listing? entries = some (before ++ (name, x) :: after) ∧
      (∀ e ∈ before, isDict e.2 = true) ∧ isDict x = false) ∨ listing? entries = none := by
  cases hlisted : listing? entries with
  | none => exact .inr (.inr rfl)
  | some listed =>
    cases hfind : listed.find? fun e => !isDict e.2 with
    | none => exact .inl ⟨listed, rfl, by simpa using hfind⟩
    | some e =>
      obtain ⟨hx, before, after, rfl, hbefore⟩ := List.find?_eq_some_iff_append.mp hfind
      exact .inr (.inl ⟨before, e.1, e.2, after, rfl, by simpa using hbefore, by simpa using hx⟩)

theorem ofData_typesNotMapping (h : listing? entries = none) :
    ofData label (.dict entries) = .error (.config (.typesNotMapping label)) := by
  rw [ofData_dict, h]

theorem ofData_eq_ok_iff : ofData label d = .ok c ↔ Configures d c := by
  constructor
  · intro h
    cases d with
    | list | set => cases h
    | atom a =>
      unfold ofData at h
      split at h
      · next heq =>
        cases heq
        obtain rfl := Except.ok.inj h
        exact .nothing
      · next heq => cases heq
      · cases h
    | dict entries =>
      rcases listing?_cases entries with
        ⟨listed, hlisted, hdicts⟩ | ⟨before, name, x, after, hlisted, hbefore, hx⟩ | hlisted
      · rw [ofData_listed hlisted hdicts] at h
        cases hunknown : unknownKeys label (entries.map Prod.fst) with
        | error e =>
          rw [hunknown] at h
          cases h
        | ok =>
          rw [hunknown] at h
          have hread : ofEntries (some label) listed = .ok c := by
            cases hread : ofEntries (some label) listed with
            | error e =>
              rw [hread] at h
              cases h
            | ok types =>
              rw [hread] at h
              exact congrArg Except.ok (Except.ok.inj h)
          obtain ⟨settings, hsettings, rfl⟩ := ofEntries_eq_ok_iff.mp hread
          refine .listed (fun e he => ?_) hlisted hsettings
          exact unknownKeys_eq_ok_iff.mp hunknown _ (List.mem_map_of_mem he)
      · rw [ofData_entryNotMapping hlisted hbefore hx] at h
        cases h
      · rw [ofData_typesNotMapping hlisted] at h
        cases h
  · intro h
    cases h with
    | nothing => rfl
    | @listed entries listed settings only hlisted hs =>
      have hdicts : ∀ e ∈ listed, isDict e.2 = true := by
        intro e he
        obtain ⟨s, -, hreads⟩ := Entries.exists_rel_of_mem hs.flip he
        exact Reads.isDict hreads
      have hunknown : unknownKeys label (entries.map Prod.fst) = .ok () :=
        unknownKeys_eq_ok_iff.mpr (by simpa using only)
      rw [ofData_listed hlisted hdicts, hunknown, ofEntries_eq_ok_iff.mpr ⟨settings, hs, rfl⟩]
      rfl

/-- What is no mapping fails with a report, if it fails. -/
theorem ofData_of_not_dict {failure : ConfigFailure} (hd : ∀ entries, d ≠ .dict entries)
    (h : ofData label d = .error failure) : failure = .config (.notMapping label) := by
  unfold ofData at h
  split at h
  · cases h
  · next entries => exact absurd rfl (hd entries)
  · exact (Except.error.inj h).symm

theorem ofData_eq_keysNotText_iff : ofData label d = .error .keysNotText ↔ Unlistable d := by
  have hread (listed : List (Atom × Data)) : (ofEntries (some label) listed).mapError .config ≠
      .error ConfigFailure.keysNotText := by
    cases ofEntries (some label) listed <;> simp [Except.mapError]
  constructor
  · intro h
    by_cases hd : ∃ entries, d = .dict entries
    · obtain ⟨entries, rfl⟩ := hd
      rcases listing?_cases entries with
        ⟨listed, hlisted, hdicts⟩ | ⟨before, name, x, after, hlisted, hbefore, hx⟩ | hlisted
      · rw [ofData_listed hlisted hdicts] at h
        have hunknown : unknownKeys label (entries.map Prod.fst) = .error .keysNotText := by
          rcases hunknown : unknownKeys label (entries.map Prod.fst) with failure | _
          · rw [hunknown] at h
            exact congrArg Except.error (Except.error.inj h)
          · rw [hunknown] at h
            exact absurd h (hread listed)
        obtain ⟨a, ha, hname⟩ := unknownKeys_eq_keysNotText_iff.mp hunknown
        obtain ⟨e, he, rfl⟩ := List.mem_map.mp ha
        exact ⟨entries, listed, rfl, hlisted, hdicts, e, he, hname⟩
      · rw [ofData_entryNotMapping hlisted hbefore hx] at h
        cases hname : name.display? <;> simp [hname] at h
      · rw [ofData_typesNotMapping hlisted] at h
        cases h
    · cases ofData_of_not_dict (fun entries heq => hd ⟨entries, heq⟩) h
  · rintro ⟨entries, listed, rfl, hlisted, hdicts, e, he, hname⟩
    have hunknown : unknownKeys label (entries.map Prod.fst) = .error .keysNotText :=
      unknownKeys_eq_keysNotText_iff.mpr ⟨e.1, List.mem_map_of_mem he, hname⟩
    rw [ofData_listed hlisted hdicts, hunknown]
    rfl

theorem ofData_eq_unwritableName_iff : ofData label d = .error .unwritableName ↔ Unwritable d := by
  constructor
  · intro h
    by_cases hd : ∃ entries, d = .dict entries
    · obtain ⟨entries, rfl⟩ := hd
      rcases listing?_cases entries with
        ⟨listed, hlisted, hdicts⟩ | ⟨before, name, x, after, hlisted, hbefore, hx⟩ | hlisted
      · rw [ofData_listed hlisted hdicts] at h
        rcases hunknown : unknownKeys label (entries.map Prod.fst) with failure | _
        · rw [hunknown] at h
          obtain rfl : failure = .unwritableName := Except.error.inj h
          exact absurd hunknown unknownKeys_ne_unwritableName
        · rw [hunknown] at h
          change (ofEntries (some label) listed).mapError .config = .error ConfigFailure.unwritableName at h
          cases hread : ofEntries (some label) listed <;> simp [hread, Except.mapError] at h
      · refine ⟨entries, before, name, x, after, rfl, hlisted, hbefore, hx, ?_⟩
        rw [ofData_entryNotMapping hlisted hbefore hx] at h
        cases hname : name.display? with
        | none => rfl
        | some text => simp [hname] at h
      · rw [ofData_typesNotMapping hlisted] at h
        cases h
    · cases ofData_of_not_dict (fun entries heq => hd ⟨entries, heq⟩) h
  · rintro ⟨entries, before, name, x, after, rfl, hlisted, hbefore, hx, hname⟩
    rw [ofData_entryNotMapping hlisted hbefore hx, hname]
    rfl

/-- The settings that are read are determined by what is written. -/
theorem settings_unique {settings others : List (Text × TypeConfig)} (h : List.Forall₂ Reads listed settings)
    (ho : List.Forall₂ Reads listed others) : settings = others := by
  refine (Relator.RightUnique.forall₂ (R := Reads) ?_) h ho
  rintro e s s' ⟨hname, hfields⟩ ⟨hname', hfields'⟩
  have hchoice := (readEntry_eq_ok_iff.mpr hfields).symm.trans (readEntry_eq_ok_iff.mpr hfields')
  exact Prod.ext (Option.some.inj (hname.symm.trans hname')) (Except.ok.inj hchoice)

/-- Data is a configuration, or a report says why not, except that no report can be written where unknown
keys are no text, or where settings that are no mapping have a name too long to be written. The settings
are those that are listed, if no two names read alike. -/
theorem ofData_outcome (label : String) (d : Data) :
    (∀ c, ofData label d = .ok c ↔ Configures d c) ∧
    (ofData label d = .error .keysNotText ↔ Unlistable d) ∧
    (ofData label d = .error .unwritableName ↔ Unwritable d) ∧
    ((∀ c, ¬ Configures d c) → ¬ Unlistable d → ¬ Unwritable d → ∃ e, ofData label d = .error (.config e)) ∧
    ∀ entries listed settings, d = .dict entries → listing? entries = some listed →
      List.Forall₂ Reads listed settings → (settings.map Prod.fst).Nodup →
      ∀ c, ofData label d = .ok c → c.types = settings := by
  refine ⟨fun c => ofData_eq_ok_iff, ofData_eq_keysNotText_iff, ofData_eq_unwritableName_iff, ?_, ?_⟩
  · intro hnone hlistable hwritable
    rcases houtcome : ofData label d with failure | c
    · cases failure with
      | config e => exact ⟨e, rfl⟩
      | keysNotText => exact absurd (ofData_eq_keysNotText_iff.mp houtcome) hlistable
      | unwritableName => exact absurd (ofData_eq_unwritableName_iff.mp houtcome) hwritable
    · exact absurd (ofData_eq_ok_iff.mp houtcome) (hnone c)
  · rintro entries listed settings rfl hlisted hsettings distinct c hc
    cases ofData_eq_ok_iff.mp hc with
    | listed _ hlisted' hs =>
      obtain rfl := Option.some.inj (hlisted.symm.trans hlisted')
      rw [settings_unique hs hsettings, Entries.ofPairsBy_of_nodup distinct]

/-- A number as a key beside `types` ends without a report. In the place of `types` anything that stands for
nothing is accepted, and bytes are accepted as the name of a type. -/
theorem ofData_number_key :
    ofData "c.yaml" (.dict [(.scalar (.int 1), .atom (.scalar (.str (.whole "x"))))]) = .error .keysNotText ∧
    ofData "c.yaml" (.dict [(.scalar (.str (.whole "types")), .atom (.scalar (.bool false)))]) = .ok {} ∧
    ofData "c.yaml" (.dict [(.scalar (.str (.whole "types")), .dict [(.bytes [65], .dict [])])]) =
      .ok ⟨[(.whole "A", {})]⟩ := by
  refine ⟨?_, ?_, ?_⟩
  · rfl
  · rfl
  · rfl

end Config

end CheckedModels
