import CheckedModels.CommandLine.Run
import CheckedModels.Proofs.Config.Decode
import CheckedModels.Proofs.Conformance.Finished

/-! The stages of a run, and how each of them turns out: with a value, with a failure that is told, or
with a crash. -/
namespace CheckedModels

theorem Declarations.ofText_eq_ok_iff {text : String} {ds : Declarations} : ofText text = .ok ds ↔
    ∃ definitions, Sdl.read text = .ok definitions ∧ ds = ofDefinitions definitions := by
  unfold ofText ofTextWithin Sdl.read
  cases Sdl.readWithin Sdl.depthLimit text with
  | error e => exact ⟨nofun, fun ⟨_, h, _⟩ => nomatch h⟩
  | ok definitions =>
    refine ⟨fun h => ⟨definitions, rfl, (Except.ok.inj h).symm⟩, ?_⟩
    rintro ⟨_, h, rfl⟩
    rw [← Except.ok.inj h]
    rfl

namespace CommandLine

/-- A step of a run gives exactly these values and ends in exactly these crashes. In all other cases it
tells of a failure. -/
structure Settles {α : Type} (x : Run α) (Good : α → Prop) (Bad : Crash → Prop) : Prop where
  gives : ∀ a, x = .ok a ↔ Good a
  crashes : ∀ c, x = .error (.crash c) ↔ Bad c
  told : ∀ report, x = .error report → (∃ message, report = .failure message) ∨ ∃ c, report = .crash c

theorem Report.crash_injective {c c' : Crash} (h : Report.crash c = Report.crash c') : c = c' :=
  Ending.crash.inj (congrArg Report.ending h)

theorem Report.failure_ne_crash {message : Text} {c : Crash} :
    Report.failure message ≠ Report.crash c :=
  fun h => Ending.noConfusion (congrArg Report.ending h)

namespace Settles

variable {α β : Type} {x : Run α} {f : α → Run β} {Good Good' : α → Prop} {Bad Bad' : Crash → Prop}

protected theorem pure (a : α) : Settles (.ok a) (fun b => b = a) fun _ => False where
  gives _ := ⟨fun h => (Except.ok.inj h).symm, fun h => h ▸ rfl⟩
  crashes _ := ⟨nofun, False.elim⟩
  told _ := nofun

theorem failure (message : Text) :
    Settles (.error (.failure message) : Run α) (fun _ => False) fun _ => False where
  gives _ := ⟨nofun, False.elim⟩
  crashes _ := ⟨fun h => Report.failure_ne_crash (Except.error.inj h), False.elim⟩
  told _ h := .inl ⟨message, (Except.error.inj h).symm⟩

theorem crash (c : Crash) : Settles (.error (.crash c) : Run α) (fun _ => False) fun c' => c' = c where
  gives _ := ⟨nofun, False.elim⟩
  crashes _ := ⟨fun h => (Report.crash_injective (Except.error.inj h)).symm, fun h => h ▸ rfl⟩
  told _ h := .inr ⟨c, (Except.error.inj h).symm⟩

theorem congr (h : Settles x Good Bad) (hgood : ∀ a, Good a ↔ Good' a) (hbad : ∀ c, Bad c ↔ Bad' c) :
    Settles x Good' Bad' where
  gives a := (h.gives a).trans (hgood a)
  crashes c := (h.crashes c).trans (hbad c)
  told := h.told

/-- What comes next only counts for the values that are given. -/
theorem bind {G : α → β → Prop} {B : α → Crash → Prop} (h : Settles x Good Bad)
    (hf : ∀ a, Good a → Settles (f a) (G a) (B a)) :
    Settles (x >>= f) (fun b => ∃ a, Good a ∧ G a b) fun c => Bad c ∨ ∃ a, Good a ∧ B a c := by
  cases x with
  | error report =>
    have hnone (a : α) : ¬ Good a := fun ha => by cases (h.gives a).mpr ha
    have hcrash (c : Crash) : Bad c ↔ report = .crash c :=
      (h.crashes c).symm.trans ⟨Except.error.inj, congrArg _⟩
    refine ⟨fun _ => ⟨nofun, fun ⟨a, ha, _⟩ => absurd ha (hnone a)⟩, fun c => ?_,
      fun other hother => ?_⟩
    · rw [hcrash]
      refine ⟨fun hc => .inl (Except.error.inj hc), fun hc => ?_⟩
      exact congrArg Except.error (hc.resolve_right fun ⟨a, ha, _⟩ => hnone a ha)
    · obtain rfl : report = other := Except.error.inj hother
      exact h.told report rfl
  | ok a =>
    have ha : Good a := (h.gives a).mp rfl
    have honly (a' : α) (ha' : Good a') : a = a' := Except.ok.inj ((h.gives a').mpr ha')
    have hnone (c : Crash) : ¬ Bad c := fun hc => by cases (h.crashes c).mpr hc
    refine ⟨fun b => ?_, fun c => ?_, (hf a ha).told⟩
    · refine ((hf a ha).gives b).trans ⟨fun hb => ⟨a, ha, hb⟩, ?_⟩
      rintro ⟨a', ha', hb⟩
      exact honly a' ha' ▸ hb
    · refine ((hf a ha).crashes c).trans ⟨fun hc => .inr ⟨a, ha, hc⟩, ?_⟩
      rintro (hc | ⟨a', ha', hc⟩)
      · exact absurd hc (hnone c)
      · exact honly a' ha' ▸ hc

/-- What has to hold before a run goes on. -/
theorem require {p : Prop} [Decidable p] {message : Text} {f : Unit → Run β} {Good : β → Prop}
    (h : ¬ p → Settles (f ()) Good Bad) : Settles (if p then throw (.failure message) >>= f else f ())
      (fun b => ¬ p ∧ Good b) fun c => ¬ p ∧ Bad c := by
  split
  · next hp => exact (Settles.failure message).congr (by simp [hp]) (by simp [hp])
  · next hp => exact (h hp).congr (by simp [hp]) (by simp [hp])

theorem map (h : Settles x Good Bad) (g : α → β) :
    Settles (x.map g) (fun b => ∃ a, Good a ∧ b = g a) Bad := by
  have hmap : x.map g = x >>= fun a => .ok (g a) := by cases x <;> rfl
  rw [hmap]
  exact (h.bind fun a _ => Settles.pure (g a)).congr (fun _ => Iff.rfl) (by simp)

end Settles

namespace Request

variable {r : Request} {files : Files}

theorem settles_operand (r : Request) (i : Nat) :
    Settles (r.operand i) (fun text => r.operands[i]? = some (some text))
      fun c => c = .noValue ∧ ∀ text, r.operands[i]? ≠ some (some text) := by
  unfold operand
  split
  · next text h => exact (Settles.pure text).congr (by simp [h, eq_comm]) (by simp [h])
  · next h => exact (Settles.crash .noValue).congr (by simpa using h) (by simpa using h)

@[simp] theorem allowFile_unbounded (files : Files) (path : String) (t : String → Task) :
    allowFile .unbounded files path t = .ok () := by
  unfold allowFile
  split <;> rfl

theorem settles_readFile (files : Files) (what path : String) :
    Settles (readFile files what path) (fun text => files.readText path = .ok text)
      fun c => ∃ f, c = .text f ∧ files.readText path = .error (.text f) := by
  unfold readFile
  cases files.readText path with
  | ok text => exact (Settles.pure text).congr (by simp [eq_comm]) (by simp)
  | error failure =>
    cases failure with
    | file f => exact (Settles.failure _).congr (by simp) (by simp)
    | text f => exact (Settles.crash (.text f)).congr (by simp) (by simp)

/-- The configuration of a request, which is that of its file if it names one. -/
inductive Configures (r : Request) (files : Files) : Config → Prop where
  | none (h : r.config = none) : Configures r files {}
  | file {path : String} {config : Config} (h : r.config = some path)
    (hload : Config.load files path = .ok config) : Configures r files config

/-- What no report is made of in the text of a configuration: a value that cannot be made from its YAML,
unknown keys that cannot be listed and a name that cannot be written. -/
inductive TextCrash (text : String) : Crash → Prop where
  | data {f : Yaml.Failure} (h : Yaml.Data.ofText Config.depth text = .error f) (hf : f ≠ .malformed) :
    TextCrash text (.data f)
  | keysNotText {d : Yaml.Data} (h : Yaml.Data.ofText Config.depth text = .ok d)
    (hd : Config.Unlistable d) : TextCrash text .keysNotText
  | unwritableName {d : Yaml.Data} (h : Yaml.Data.ofText Config.depth text = .ok d)
    (hd : Config.Unwritable d) : TextCrash text .unwritableName

theorem textCrash_iff {text : String} {c : Crash} : TextCrash text c ↔
    (∃ f, c = .data f ∧ Yaml.Data.ofText Config.depth text = .error f ∧ f ≠ .malformed) ∨
      ∃ d, Yaml.Data.ofText Config.depth text = .ok d ∧
        (c = .keysNotText ∧ Config.Unlistable d ∨ c = .unwritableName ∧ Config.Unwritable d) := by
  constructor
  · rintro (⟨h, hf⟩ | ⟨h, hd⟩ | ⟨h, hd⟩)
    · exact .inl ⟨_, rfl, h, hf⟩
    · exact .inr ⟨_, h, .inl ⟨rfl, hd⟩⟩
    · exact .inr ⟨_, h, .inr ⟨rfl, hd⟩⟩
  · rintro (⟨f, rfl, h, hf⟩ | ⟨d, h, ⟨rfl, hd⟩ | ⟨rfl, hd⟩⟩)
    · exact .data h hf
    · exact .keysNotText h hd
    · exact .unwritableName h hd

theorem settles_ofText (label text : String) :
    Settles ((Config.ofText label text).mapError Report.ofLoadFailure)
      (fun config => Config.ofText label text = .ok config) (TextCrash text) := by
  refine Settles.congr ?_ (fun _ => Iff.rfl) fun _ => textCrash_iff.symm
  unfold Config.ofText
  cases Yaml.Data.ofText Config.depth text with
  | error f =>
    cases f with
    | malformed => exact (Settles.failure _).congr (by simp) (by simp)
    | badValue | emptyNumber | tooLarge | notTruth | notMoment | momentOfParts | endless | tooDeep =>
      exact (Settles.crash _).congr (by simp) (by simp)
  | ok d =>
    have hkeys : Config.Unlistable d ↔ Config.ofData label d = .error .keysNotText :=
      Config.ofData_eq_keysNotText_iff.symm
    have hname : Config.Unwritable d ↔ Config.ofData label d = .error .unwritableName :=
      Config.ofData_eq_unwritableName_iff.symm
    simp only [Except.ok.injEq, reduceCtorEq, false_and, and_false, exists_false, false_or,
      exists_eq_left', hkeys, hname]
    cases Config.ofData label d with
    | ok config => exact (Settles.pure config).congr (by simp [eq_comm]) (by simp)
    | error failure =>
      cases failure with
      | config e => exact (Settles.failure _).congr (by simp) (by simp)
      | keysNotText | unwritableName => exact (Settles.crash _).congr (by simp) (by simp)

theorem settles_load (files : Files) (path : String) :
    Settles ((Config.load files path).mapError Report.ofLoadFailure)
      (fun config => Config.load files path = .ok config)
      fun c => (∃ f, c = .text f ∧ files.readText (Files.path path) = .error (.text f)) ∨
        ∃ text, files.readText (Files.path path) = .ok text ∧ TextCrash text c := by
  simp only [Config.load]
  cases files.readText (Files.path path) with
  | ok text => exact (settles_ofText _ text).congr (fun _ => Iff.rfl) (by simp)
  | error failure =>
    cases failure with
    | file f => exact (Settles.failure _).congr (by simp) (by simp)
    | text f => exact (Settles.crash (.text f)).congr (by simp) (by simp)

/-- What no report is made of in the file of a configuration. -/
inductive ConfigCrash (r : Request) (files : Files) : Crash → Prop where
  | notText {path : String} {f : TextFault} (h : r.config = some path)
    (hread : files.readText (Files.path path) = .error (.text f)) : ConfigCrash r files (.text f)
  | text {path text : String} {c : Crash} (h : r.config = some path)
    (hread : files.readText (Files.path path) = .ok text) (hc : TextCrash text c) :
    ConfigCrash r files c

theorem settles_loadConfig (r : Request) (files : Files) :
    Settles (r.loadConfig .unbounded files) (r.Configures files) (r.ConfigCrash files) := by
  unfold loadConfig
  cases hconfig : r.config with
  | none =>
    refine (Settles.pure ({} : Config)).congr (fun config => ⟨?_, ?_⟩) fun c => ⟨False.elim, ?_⟩
    · rintro rfl
      exact .none hconfig
    · rintro (_ | ⟨h, -⟩)
      · rfl
      · simp [hconfig] at h
    · rintro (⟨h, -⟩ | ⟨h, -⟩) <;> simp [hconfig] at h
  | some path =>
    simp only [allowFile_unbounded]
    refine (settles_load files path).congr (fun config => ⟨.file hconfig, ?_⟩) fun c => ⟨?_, ?_⟩
    · rintro (h | ⟨h, hload⟩)
      · simp [hconfig] at h
      · obtain rfl := Option.some.inj (hconfig.symm.trans h)
        exact hload
    · rintro (⟨f, rfl, hread⟩ | ⟨text, hread, hc⟩)
      · exact .notText hconfig hread
      · exact .text hconfig hread hc
    · rintro (⟨h, hread⟩ | ⟨h, hread, hc⟩) <;> obtain rfl := Option.some.inj (hconfig.symm.trans h)
      · exact .inl ⟨_, rfl, hread⟩
      · exact .inr ⟨_, hread, hc⟩

inductive Compiles (r : Request) (files : Files) : Registry → Prop where
  | intro {config : Config} {path text : String} {ds : Declarations} {c : Compilation}
    (hconfig : r.Configures files config) (hpath : r.operands[0]? = some (some path))
    (hread : files.readText (Files.path path) = .ok text) (hds : Declarations.ofText text = .ok ds)
    (hc : ds.compile config = .ok c) : Compiles r files c.registry

theorem Compiles.finished {registry : Registry} (h : r.Compiles files registry) :
    registry.Finished := by
  cases h with
  | intro _ _ _ hds hc =>
    obtain ⟨c, hc', hfinished⟩ :=
      Declarations.finished_compile (Declarations.usable_of_ofTextWithin hds) _
    obtain rfl := Except.ok.inj (hc'.symm.trans hc)
    exact hfinished

/-- What no report is made of up to the compiled schema. -/
inductive CompileCrash (r : Request) (files : Files) : Crash → Prop where
  | config {c : Crash} (h : r.ConfigCrash files c) : CompileCrash r files c
  | noSchema {config : Config} (hconfig : r.Configures files config)
    (h : ∀ path, r.operands[0]? ≠ some (some path)) : CompileCrash r files .noValue
  | notText {config : Config} {path : String} {f : TextFault} (hconfig : r.Configures files config)
    (hpath : r.operands[0]? = some (some path))
    (hread : files.readText (Files.path path) = .error (.text f)) : CompileCrash r files (.text f)

theorem settles_readDefinitions (files : Files) (path : String) :
    Settles (readDefinitions .unbounded files path)
      (fun definitions => ∃ text, files.readText path = .ok text ∧ Sdl.read text = .ok definitions)
      fun c => ∃ f, c = .text f ∧ files.readText path = .error (.text f) := by
  have htext (text : String) : Settles ((Sdl.read text).mapError fun e => Report.failure e.message)
      (fun definitions => Sdl.read text = .ok definitions) fun _ => False := by
    cases Sdl.read text with
    | ok definitions => exact (Settles.pure definitions).congr (by simp [eq_comm]) (by simp)
    | error e => exact (Settles.failure _).congr (by simp) (by simp)
  exact ((settles_readFile files "schema" path).bind fun text _ => htext text).congr
    (fun _ => Iff.rfl) (by simp)

theorem settles_compile (r : Request) (files : Files) :
    Settles ((r.compile .unbounded files).map Compilation.registry) (r.Compiles files) (r.CompileCrash files) := by
  have hlast (definitions : List Sdl.Definition) (config : Config) :
      Settles (((Declarations.ofDefinitions definitions).compile config).mapError fun e =>
          Report.crash (.definition e))
        (fun c => (Declarations.ofDefinitions definitions).compile config = .ok c) fun _ => False := by
    obtain ⟨w, -, hc, -⟩ := (Declarations.ofDefinitions definitions).compile_total config
    rw [hc]
    exact (Settles.pure _).congr (by simp [eq_comm]) (by simp)
  have hall : Settles (r.compile .unbounded files) _ _ :=
    (settles_loadConfig r files).bind fun config _ => (settles_operand r 0).bind fun path _ =>
      (settles_readDefinitions files (Files.path path)).bind fun definitions _ =>
        (hlast definitions config).bind fun c _ =>
          Settles.pure (⟨c.registry, remarks definitions ++ c.notes⟩ : Compilation)
  refine (hall.map _).congr (fun registry => ⟨?_, ?_⟩) fun c => ⟨?_, ?_⟩
  · rintro ⟨_, ⟨config, hconfig, path, hpath, definitions, ⟨text, hread, hdefinitions⟩, c, hc, rfl⟩,
      rfl⟩
    have hds := Declarations.ofText_eq_ok_iff.mpr ⟨definitions, hdefinitions, rfl⟩
    exact .intro (c := c) hconfig hpath hread hds hc
  · rintro ⟨hconfig, hpath, hread, hds, hc⟩
    obtain ⟨definitions, hdefinitions, rfl⟩ := Declarations.ofText_eq_ok_iff.mp hds
    exact ⟨_, ⟨_, hconfig, _, hpath, definitions, ⟨_, hread, hdefinitions⟩, _, hc, rfl⟩, rfl⟩
  · rintro (hc | ⟨config, hconfig, ⟨rfl, hnone⟩ | ⟨path, hpath, ⟨f, rfl, hread⟩ | ⟨_, _, hno⟩⟩⟩)
    · exact .config hc
    · exact .noSchema hconfig hnone
    · exact .notText hconfig hpath hread
    · simp at hno
  · rintro (hc | ⟨hconfig, hnone⟩ | ⟨hconfig, hpath, hread⟩)
    · exact .inl hc
    · exact .inr ⟨_, hconfig, .inl ⟨rfl, hnone⟩⟩
    · exact .inr ⟨_, hconfig, .inr ⟨_, hpath, .inl ⟨_, rfl, hread⟩⟩⟩

/-- What no report is made of in the data file: content that is no text, a number that is too long and
brackets that are too deep. -/
inductive DataCrash (files : Files) (path : String) : Crash → Prop where
  | notText {f : TextFault} (hread : files.readText path = .error (.text f)) :
    DataCrash files path (.text f)
  | longInteger {text : String} {e : Json.ReadError} {digits : Nat}
    (hread : files.readText path = .ok text) (h : Json.read text = .error e) (hfault : e.fault = .longInteger digits) :
    DataCrash files path (.longInteger digits)
  | deepData {text : String} {e : Json.ReadError} (hread : files.readText path = .ok text)
    (h : Json.read text = .error e) (hfault : e.fault = .tooDeep) : DataCrash files path .deepData

def Holds (files : Files) (path : String) (j : Json) : Prop :=
  ∃ text, files.readText path = .ok text ∧ Json.read text = .ok j

theorem settles_readValue (files : Files) (path : String) :
    Settles (readValue .unbounded files path) (fun v => ∃ j, Holds files path j ∧ v = .ofJson j)
      (DataCrash files path) := by
  refine ((settles_readFile files "data" path).bind
    (G := fun text v => ∃ j, Json.read text = .ok j ∧ v = .ofJson j)
    (B := fun text c => ∃ e, Json.read text = .error e ∧
      ((∃ digits, c = .longInteger digits ∧ e.fault = .longInteger digits) ∨
        c = .deepData ∧ e.fault = .tooDeep)) fun text _ => ?_).congr (fun v => ?_) fun c => ?_
  · cases Json.read text with
    | ok j => exact (Settles.pure _).congr (by simp) (by simp)
    | error e =>
      obtain ⟨fault, offset⟩ := e
      cases fault with
      | longInteger | tooDeep => exact (Settles.crash _).congr (by simp) (by simp)
      | _ => exact (Settles.failure _).congr (by simp) (by simp)
  · constructor
    · rintro ⟨text, hread, j, hj, rfl⟩
      exact ⟨j, ⟨text, hread, hj⟩, rfl⟩
    · rintro ⟨j, ⟨text, hread, hj⟩, rfl⟩
      exact ⟨text, hread, j, hj, rfl⟩
  · constructor
    · rintro (⟨f, rfl, hread⟩ | ⟨text, hread, e, he, ⟨digits, rfl, hfault⟩ | ⟨rfl, hfault⟩⟩)
      · exact .notText hread
      · exact .longInteger hread he hfault
      · exact .deepData hread he hfault
    · rintro (hread | ⟨hread, he, hfault⟩ | ⟨hread, he, hfault⟩)
      · exact .inl ⟨_, rfl, hread⟩
      · exact .inr ⟨_, hread, _, he, .inl ⟨_, rfl, hfault⟩⟩
      · exact .inr ⟨_, hread, _, he, .inr ⟨rfl, hfault⟩⟩

/-- What no report is made of when a value is checked. -/
inductive CheckCrash (r : Request) (files : Files) (registry : Registry) : Crash → Prop where
  | noType (h : ∀ key, r.operands[1]? ≠ some (some key)) : CheckCrash r files registry .noValue
  | noData {key : String} (hkey : r.operands[1]? = some (some key)) (mem : key ∈ registry.keys)
    (h : ∀ path, r.operands[2]? ≠ some (some path)) : CheckCrash r files registry .noValue
  | data {key path : String} {c : Crash} (hkey : r.operands[1]? = some (some key))
    (mem : key ∈ registry.keys) (hpath : r.operands[2]? = some (some path))
    (hc : DataCrash files (Files.path path) c) : CheckCrash r files registry c

/-- The value that a request asks for, of the type that it asks for. -/
structure Checks (r : Request) (files : Files) (registry : Registry) (key : String) (j : Json) :
    Prop where
  type : r.operands[1]? = some (some key)
  mem : key ∈ registry.keys
  data : ∃ path, r.operands[2]? = some (some path) ∧ Holds files (Files.path path) j

theorem settles_check (r : Request) (files : Files) {registry : Registry} (h : registry.Finished) :
    Settles (r.check .unbounded files registry)
      (fun report => report = .success "Valid.\n" ∧ ∃ key j, r.Checks files registry key j ∧
        ∃ made, registry.create (.named key) (.ofJson j) = .ok made)
      (r.CheckCrash files registry) := by
  have hmem {key : String} : ¬ (registry.find? key).isNone = true ↔ key ∈ registry.keys := by
    rw [Registry.mem_keys_iff, Option.isNone_iff_eq_none, ← ne_eq, Option.ne_none_iff_exists']
  refine Settles.congr ((settles_operand r 1).bind fun key _ => Settles.require fun hkey =>
    (settles_operand r 2).bind fun path _ => (settles_readValue files (Files.path path)).bind
      (G := fun v report => report = Report.success "Valid.\n" ∧
        ∃ made, registry.create (.named key) v = .ok made)
      (B := fun _ _ => False) fun v _ => ?_) (fun report => ⟨?_, ?_⟩) fun c => ⟨?_, ?_⟩
  · rcases h.create_cases (.named (hmem.mp hkey)) v with ⟨made, hv⟩ | ⟨e, hv⟩ <;> rw [hv]
    · exact (Settles.pure _).congr (by simp) (by simp)
    · exact (Settles.failure _).congr (by simp) (by simp)
  · rintro ⟨key, hkey, hmember, path, hpath, _, ⟨j, hj, rfl⟩, rfl, hcreate⟩
    exact ⟨rfl, key, j, ⟨hkey, hmem.mp hmember, path, hpath, hj⟩, hcreate⟩
  · rintro ⟨rfl, key, j, ⟨hkey, hmember, path, hpath, hj⟩, hcreate⟩
    exact ⟨key, hkey, hmem.mpr hmember, path, hpath, _, ⟨j, hj, rfl⟩, rfl, hcreate⟩
  · rintro (⟨rfl, hnone⟩ | ⟨key, hkey, hmember, ⟨rfl, hnone⟩ | ⟨path, hpath, hc | ⟨_, _, hno⟩⟩⟩)
    · exact .noType hnone
    · exact .noData hkey (hmem.mp hmember) hnone
    · exact .data hkey (hmem.mp hmember) hpath hc
    · exact hno.elim
  · rintro (hnone | ⟨hkey, hmember, hnone⟩ | ⟨hkey, hmember, hpath, hc⟩)
    · exact .inl ⟨rfl, hnone⟩
    · exact .inr ⟨_, hkey, hmem.mpr hmember, .inl ⟨rfl, hnone⟩⟩
    · exact .inr ⟨_, hkey, hmem.mpr hmember, .inr ⟨_, hpath, .inl hc⟩⟩

/-- The line of a listing or a summary, or the verdict on a value. -/
inductive Responds (r : Request) (files : Files) (registry : Registry) : Report → Prop where
  | listed (h : r.command = .compile) : Responds r files registry
    (.success (if r.json then registry.serialize ++ "\n" else listing registry))
  | valid {key : String} {j : Json} {made : Value} (h : r.command = .validate)
    (hchecks : Checks r files registry key j)
    (hmade : registry.create (.named key) (.ofJson j) = .ok made) :
    Responds r files registry (.success "Valid.\n")

theorem list_unbounded (registry : Registry) :
    list .unbounded registry = .ok (.success (listing registry)) := by
  simp [list, Stack.unbounded, pure, Except.pure]

theorem settles_respond (r : Request) (files : Files) {registry : Registry} (h : registry.Finished) :
    Settles (r.respond .unbounded files registry) (r.Responds files registry)
      fun c => r.command = .validate ∧ r.CheckCrash files registry c := by
  unfold respond
  cases hcommand : r.command with
  | compile =>
    have hprint : (if r.json then summarize .unbounded registry else list .unbounded registry) =
        .ok (.success (if r.json then registry.serialize ++ "\n" else listing registry)) := by
      rw [list_unbounded]
      cases r.json <;> rfl
    dsimp only
    rw [hprint]
    refine (Settles.pure (α := Report) _).congr (fun report => ⟨?_, ?_⟩) (by simp)
    · rintro rfl
      exact .listed hcommand
    · rintro (_ | ⟨hvalidate, -⟩)
      · rfl
      · simp [hcommand] at hvalidate
  | validate =>
    refine (settles_check r files h).congr (fun report => ⟨?_, ?_⟩) (by simp)
    · rintro ⟨rfl, key, j, hchecks, made, hmade⟩
      exact .valid hcommand hchecks hmade
    · rintro (hcompile | ⟨-, hchecks, hmade⟩)
      · simp [hcommand] at hcompile
      · exact ⟨rfl, _, _, hchecks, _, hmade⟩

end Request

end CommandLine

end CheckedModels
