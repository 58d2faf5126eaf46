import CheckedModels.Proofs.CommandLine.Stages

/-! Runs for which the stack may not be enough: they go as on an unbounded stack up to the first task in
which the stack comes to its end. -/
namespace CheckedModels.CommandLine

/-- A step of a run comes to these tasks. It is the same as on an unbounded stack if the stack is enough
for all of them, and it crashes if for one of them it is not. -/
structure Bears {α : Type} (x : Stack → Run α) (Tasks : Task → Prop) : Prop where
  goes : ∀ stack : Stack, (∀ t, Tasks t → stack t = false) → x stack = x .unbounded
  ends : ∀ (stack : Stack) t, Tasks t → stack t = true →
    ∃ report, x stack = .error report ∧ report.ending = .crash .noStack

namespace Bears

variable {α β : Type} {x : Stack → Run α} {Tasks Tasks' : Task → Prop}

theorem of (x : Run α) : Bears (fun _ => x) fun _ => False where
  goes _ _ := rfl
  ends _ _ := False.elim

theorem allow (t : Task) : Bears (fun stack => stack.allow t) fun t' => t' = t where
  goes stack h := by simp [Stack.allow, h t rfl, Stack.unbounded]
  ends stack t' ht hends := by
    subst ht
    exact ⟨.crash .noStack, by simp [Stack.allow, hends, throw, throwThe, MonadExceptOf.throw], rfl⟩

theorem congr (h : Bears x Tasks) (htasks : ∀ t, Tasks t ↔ Tasks' t) : Bears x Tasks' where
  goes stack hall := h.goes stack fun t ht => hall t ((htasks t).mp ht)
  ends stack t ht := h.ends stack t ((htasks t).mpr ht)

/-- What comes next has tasks only if there is something to go on with. -/
theorem bind {f : α → Stack → Run β} {More : α → Task → Prop} (h : Bears x Tasks)
    (hf : ∀ a, x .unbounded = .ok a → Bears (f a) (More a)) :
    Bears (fun stack => x stack >>= fun a => f a stack)
      fun t => Tasks t ∨ ∃ a, x .unbounded = .ok a ∧ More a t where
  goes stack hall := by
    rw [h.goes stack fun t ht => hall t (.inl ht)]
    cases hx : x .unbounded with
    | error report => rfl
    | ok a => exact (hf a hx).goes stack fun t ht => hall t (.inr ⟨a, hx, ht⟩)
  ends stack t ht hends := by
    by_cases hfirst : ∃ t, Tasks t ∧ stack t = true
    · obtain ⟨t, ht, hends⟩ := hfirst
      obtain ⟨report, hx, hreport⟩ := h.ends stack t ht hends
      exact ⟨report, by rw [hx]; rfl, hreport⟩
    · have hsame := h.goes stack fun t ht => Bool.eq_false_iff.mpr fun hends => hfirst ⟨t, ht, hends⟩
      obtain ht | ⟨a, hx, ht⟩ := ht
      · exact absurd ⟨t, ht, hends⟩ hfirst
      · obtain ⟨report, hnext, hreport⟩ := (hf a hx).ends stack t ht hends
        exact ⟨report, by rw [hsame, hx]; exact hnext, hreport⟩

theorem map (h : Bears x Tasks) (g : α → β) : Bears (fun stack => (x stack).map g) Tasks where
  goes stack hall := congrArg (Except.map g) (h.goes stack hall)
  ends stack t ht hends := by
    obtain ⟨report, hx, hreport⟩ := h.ends stack t ht hends
    exact ⟨report, by rw [hx]; rfl, hreport⟩

/-- Nothing is left to be done where a requirement is not met. -/
theorem require {p : Prop} [Decidable p] {message : Text} {f : Unit → Stack → Run β}
    (h : ¬ p → Bears (f ()) Tasks) :
    Bears (fun stack => if p then throw (.failure message) >>= fun u => f u stack else f () stack)
      fun t => ¬ p ∧ Tasks t := by
  by_cases hp : p
  · simp only [hp, if_true, not_true, false_and]
    exact of _
  · simp only [hp, if_false, not_false_iff, true_and]
    exact h hp

end Bears

namespace Request

variable {r : Request} {files : Files} {registry : Registry}

theorem bears_allowFile (files : Files) (path : String) (t : String → Task) :
    Bears (fun stack => allowFile stack files path t)
      fun t' => ∃ text, files.readText path = .ok text ∧ t' = t text := by
  unfold allowFile
  cases files.readText path with
  | ok text => exact (Bears.allow (t text)).congr (by simp)
  | error failure => exact (Bears.of _).congr (by simp)

theorem bears_loadConfig (r : Request) (files : Files) : Bears (fun stack => r.loadConfig stack files)
    fun t => ∃ path text, r.config = some path ∧ files.readText (Files.path path) = .ok text ∧
      t = .configuration text := by
  unfold loadConfig
  cases r.config with
  | none => exact (Bears.of _).congr (by simp)
  | some path =>
    exact ((bears_allowFile files (Files.path path) .configuration).bind fun _ _ => Bears.of _).congr (by simp)

/-- The tasks up to the compiled schema. -/
inductive CompileTask (r : Request) (files : Files) : Task → Prop where
  | configuration {path text : String} (h : r.config = some path)
    (hread : files.readText (Files.path path) = .ok text) : CompileTask r files (.configuration text)
  | schema {config : Config} {path text : String} (hconfig : r.Configures files config)
    (hpath : r.operands[0]? = some (some path))
    (hread : files.readText (Files.path path) = .ok text) : CompileTask r files (.schema text)
  | compilation {config : Config} {path text : String} {ds : Declarations}
    (hconfig : r.Configures files config) (hpath : r.operands[0]? = some (some path))
    (hread : files.readText (Files.path path) = .ok text) (hds : Declarations.ofText text = .ok ds) :
    CompileTask r files (.compilation ds config)

theorem bears_readDefinitions (files : Files) (path : String) :
    Bears (fun stack => readDefinitions stack files path)
      fun t => ∃ text, files.readText path = .ok text ∧ t = .schema text := by
  refine ((Bears.of (readFile files "schema" path)).bind fun text _ =>
    (Bears.allow (.schema text)).bind fun _ _ => Bears.of _).congr fun t => ?_
  simp [(settles_readFile files "schema" path).gives]

theorem bears_compile (r : Request) (files : Files) :
    Bears (fun stack => r.compile stack files) (r.CompileTask files) := by
  refine ((bears_loadConfig r files).bind fun config _ => (Bears.of (r.operand 0)).bind fun path _ =>
    (bears_readDefinitions files (Files.path path)).bind fun definitions _ =>
      (Bears.allow (.compilation (Declarations.ofDefinitions definitions) config)).bind fun _ _ =>
        Bears.of _).congr fun t => ?_
  simp only [(settles_loadConfig r files).gives, (settles_operand r 0).gives,
    (settles_readDefinitions files _).gives]
  constructor
  · rintro (⟨path, text, h, hread, rfl⟩ | ⟨config, hconfig, hno | ⟨path, hpath, hrest⟩⟩)
    · exact .configuration h hread
    · exact hno.elim
    · rcases hrest with ⟨text, hread, rfl⟩ | ⟨definitions, ⟨text, hread, hds⟩, rfl | ⟨_, _, hno⟩⟩
      · exact .schema hconfig hpath hread
      · exact .compilation hconfig hpath hread (Declarations.ofText_eq_ok_iff.mpr ⟨definitions, hds, rfl⟩)
      · exact hno.elim
  · rintro (⟨h, hread⟩ | ⟨hconfig, hpath, hread⟩ | ⟨hconfig, hpath, hread, hds⟩)
    · exact .inl ⟨_, _, h, hread, rfl⟩
    · exact .inr ⟨_, hconfig, .inr ⟨_, hpath, .inl ⟨_, hread, rfl⟩⟩⟩
    · obtain ⟨definitions, hdefinitions, rfl⟩ := Declarations.ofText_eq_ok_iff.mp hds
      exact .inr ⟨_, hconfig, .inr ⟨_, hpath, .inr ⟨definitions, ⟨_, hread, hdefinitions⟩, .inl rfl⟩⟩⟩

theorem bears_list (registry : Registry) : Bears (fun stack => list stack registry)
    fun t => ∃ key ∈ registry.keys, t = .line registry key where
  goes stack hall := by
    have hnone : (registry.keys.any fun key => stack (.line registry key)) = false :=
      List.any_eq_false.mpr fun key hkey => by simp [hall _ ⟨key, hkey, rfl⟩]
    rw [list_unbounded, list, hnone]
    rfl
  ends stack t ht hends := by
    obtain ⟨key, hkey, rfl⟩ := ht
    have hany : (registry.keys.any fun key => stack (.line registry key)) = true :=
      List.any_eq_true.mpr ⟨key, hkey, hends⟩
    rw [list, hany]
    exact ⟨_, rfl, rfl⟩

/-- The tasks that a value is checked by. -/
inductive CheckTask (r : Request) (files : Files) (registry : Registry) : Task → Prop where
  | document {key path text : String} (hkey : r.operands[1]? = some (some key))
    (mem : key ∈ registry.keys) (hpath : r.operands[2]? = some (some path))
    (hread : files.readText (Files.path path) = .ok text) : CheckTask r files registry (.document text)
  | conversion {key : String} {j : Json} (h : r.Checks files registry key j) :
    CheckTask r files registry (.conversion registry key (.ofJson j))

theorem bears_readValue (files : Files) (path : String) :
    Bears (fun stack => readValue stack files path)
      fun t => ∃ text, files.readText path = .ok text ∧ t = .document text := by
  refine ((Bears.of (readFile files "data" path)).bind fun text _ =>
    (Bears.allow (.document text)).bind fun _ _ => Bears.of _).congr fun t => ?_
  simp [(settles_readFile files "data" path).gives]

theorem bears_check (r : Request) (files : Files) (registry : Registry) :
    Bears (fun stack => r.check stack files registry) (r.CheckTask files registry) := by
  have hmem {key : String} : ¬ (registry.find? key).isNone = true ↔ key ∈ registry.keys := by
    rw [Registry.mem_keys_iff, Option.isNone_iff_eq_none, ← ne_eq, Option.ne_none_iff_exists']
  refine ((Bears.of (r.operand 1)).bind fun key _ => Bears.require fun _ =>
    (Bears.of (r.operand 2)).bind fun path _ => (bears_readValue files (Files.path path)).bind fun v _ =>
      (Bears.allow (.conversion registry key v)).bind fun _ _ => Bears.of _).congr fun t => ?_
  simp only [(settles_operand r 1).gives, (settles_operand r 2).gives, (settles_readValue files _).gives, hmem]
  constructor
  · rintro (hno | ⟨key, hkey, mem, hno | ⟨path, hpath, hrest⟩⟩)
    · exact hno.elim
    · exact hno.elim
    · rcases hrest with ⟨text, hread, rfl⟩ | ⟨v, ⟨j, hj, rfl⟩, rfl | ⟨_, _, hno⟩⟩
      · exact .document hkey mem hpath hread
      · exact .conversion ⟨hkey, mem, path, hpath, hj⟩
      · exact hno.elim
  · rintro (⟨hkey, mem, hpath, hread⟩ | ⟨hkey, mem, path, hpath, hj⟩)
    · exact .inr ⟨_, hkey, mem, .inr ⟨_, hpath, .inl ⟨_, hread, rfl⟩⟩⟩
    · exact .inr ⟨_, hkey, mem, .inr ⟨path, hpath, .inr ⟨_, ⟨_, hj, rfl⟩, .inl rfl⟩⟩⟩

/-- The tasks of a request, each as far as the stack is enough for those before. -/
inductive Performs (r : Request) (files : Files) : Task → Prop where
  | compile {t : Task} (h : r.CompileTask files t) : Performs r files t
  | summary {registry : Registry} (hcompiles : r.Compiles files registry) (hcommand : r.command = .compile)
    (hjson : r.json = true) : Performs r files (.summary registry)
  | line {registry : Registry} {key : String} (hcompiles : r.Compiles files registry)
    (hcommand : r.command = .compile) (hjson : r.json = false) (mem : key ∈ registry.keys) :
    Performs r files (.line registry key)
  | check {registry : Registry} {t : Task} (hcompiles : r.Compiles files registry)
    (hcommand : r.command = .validate) (h : r.CheckTask files registry t) : Performs r files t

theorem bears_respond (r : Request) (files : Files) (registry : Registry) :
    Bears (fun stack => r.respond stack files registry) fun t =>
      r.command = .compile ∧ (if r.json then t = .summary registry
        else ∃ key ∈ registry.keys, t = .line registry key) ∨
      r.command = .validate ∧ r.CheckTask files registry t := by
  unfold respond
  cases r.command with
  | compile =>
    cases r.json with
    | true =>
      exact ((Bears.allow (.summary registry)).bind fun _ _ => Bears.of _).congr (by simp)
    | false => exact (bears_list registry).congr (by simp)
  | validate => exact (bears_check r files registry).congr (by simp)

/-- The answer to a request, without remarks. -/
def answer (stack : Stack) (r : Request) (files : Files) : Run Report := do
  r.respond stack files (← (r.compile stack files).map Compilation.registry)

theorem bears_answer (r : Request) (files : Files) :
    Bears (fun stack => r.answer stack files) (r.Performs files) := by
  refine (((bears_compile r files).map Compilation.registry).bind fun registry _ =>
    bears_respond r files registry).congr fun t => ?_
  simp only [(settles_compile r files).gives]
  constructor
  · rintro (h | ⟨registry, hcompiles, ⟨hcommand, h⟩ | ⟨hcommand, h⟩⟩)
    · exact .compile h
    · split at h
      · next hjson => exact h ▸ .summary hcompiles hcommand hjson
      · next hjson =>
        obtain ⟨key, mem, rfl⟩ := h
        exact .line hcompiles hcommand (by simpa using hjson) mem
    · exact .check hcompiles hcommand h
  · rintro (h | ⟨hcompiles, hcommand, hjson⟩ | ⟨hcompiles, hcommand, hjson, mem⟩ | ⟨hcompiles, hcommand, h⟩)
    · exact .inl h
    · exact .inr ⟨_, hcompiles, .inl ⟨hcommand, by simp [hjson]⟩⟩
    · exact .inr ⟨_, hcompiles, .inl ⟨hcommand, by simp [hjson, mem]⟩⟩
    · exact .inr ⟨_, hcompiles, .inr ⟨hcommand, h⟩⟩

end Request

end CheckedModels.CommandLine
