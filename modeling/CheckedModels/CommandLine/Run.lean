import CheckedModels.CommandLine.Request
import CheckedModels.Compile.Basic
import CheckedModels.Config.File
import CheckedModels.Conversion.Create
import CheckedModels.Declaration.OfText
import CheckedModels.Json.Reader
import CheckedModels.Registry.Summary

/-! What the program answers, given the content of files. -/
namespace CheckedModels.CommandLine

/-- What ends a run without a report. -/
inductive Crash where
  | text (f : TextFault)
  | data (f : Yaml.Failure)
  | longInteger (digits : Nat)
  | deepData
  | keysNotText
  | unwritableName
  | noValue
  | definition (e : DefinitionError)
  | fault (f : Fault)
  | noStack

def Crash.message : Crash → String
  | text f => f.message
  | data f => f.message
  | longInteger digits => Decimal.longInteger digits
  | deepData => "data that is nested too deeply"
  | keysNotText => "unknown keys that are not text"
  | unwritableName => Decimal.unwritable
  | noValue => "an operand has no value"
  | definition e => e.message
  | fault f => f.message
  | noStack => "the stack has come to its end"

/-- What takes the more of the interpreter's stack, the deeper its input is nested or the longer a chain
of references in it is. -/
inductive Task where
  | configuration (text : String)
  | schema (text : String)
  | compilation (ds : Declarations) (config : Config)
  | summary (registry : Registry)
  | line (registry : Registry) (key : String)
  | document (text : String)
  | conversion (registry : Registry) (key : String) (v : Value)

/-- Whether the stack of the interpreter comes to its end in a task. -/
abbrev Stack := Task → Bool

inductive Ending where
  | exit (code : Nat)
  | crash (c : Crash)

structure Report where
  output : String := ""
  complaints : Text := ""
  ending : Ending

namespace Report

def success (output : String) : Report := { output, ending := .exit 0 }

def failure (message : Text) : Report :=
  { complaints := "Error: " ++ message ++ "\n", ending := .exit 1 }

def crash (c : Crash) : Report := { ending := .crash c }

/-- Remarks come before complaints. -/
def remark (notes : List Note) (r : Report) : Report :=
  { r with complaints := Text.whole (String.join (notes.map fun n => n.line ++ "\n")) ++ r.complaints }

def ofStop : Stop → Report
  | .help g => success (g.help ++ "\n")
  | .misuse g m =>
    { complaints := g.usage ++ "\n" ++ s!"{g.program}: error: {m.message}" ++ "\n"
      ending := .exit 2 }

def ofLoadFailure : LoadFailure → Report
  | .config e => failure e.message
  | .keysNotText => crash .keysNotText
  | .unwritableName => crash .unwritableName
  | .text f => crash (.text f)
  | .data f => crash (.data f)

end Report

/-- A run goes on with a value or ends with a report. -/
abbrev Run (α : Type) := Except Report α

namespace Stack

def unbounded : Stack := fun _ => false

/-- A run only goes on if the stack is enough for the task. -/
def allow (stack : Stack) (t : Task) : Run Unit := if stack t then throw (.crash .noStack) else return ()

end Stack

namespace Request

def operand (r : Request) (index : Nat) : Run String :=
  match r.operands[index]? with
  | some (some text) => .ok text
  | _ => .error (.crash .noValue)

/-- What a task on the content of a file needs of the stack, if there is such a file. -/
def allowFile (stack : Stack) (files : Files) (path : String) (t : String → Task) : Run Unit :=
  match files.readText path with
  | .ok text => stack.allow (t text)
  | .error _ => return ()

def loadConfig (stack : Stack) (r : Request) (files : Files) : Run Config :=
  match r.config with
  | none => .ok {}
  | some path => do
    allowFile stack files (Files.path path) .configuration
    (Config.load files path).mapError Report.ofLoadFailure

/-- The text of a file, which a report calls by what it holds. -/
def readFile (files : Files) (what path : String) : Run String :=
  (files.readText path).mapError fun
    | .file f => .failure s!"cannot read {what} file: {f.message path}"
    | .text f => .crash (.text f)

def readDefinitions (stack : Stack) (files : Files) (path : String) : Run (List Sdl.Definition) := do
  let text ← readFile files "schema" path
  stack.allow (.schema text)
  (Sdl.read text).mapError fun e => .failure e.message

def remarks (definitions : List Sdl.Definition) : List Note :=
  (definitions.filterMap Declarations.skipped?).map .skippedDefinition

/-- The configuration is read before the schema. -/
def compile (stack : Stack) (r : Request) (files : Files) : Run Compilation := do
  let config ← loadConfig stack r files
  let definitions ← readDefinitions stack files (Files.path (← r.operand 0))
  stack.allow (.compilation (Declarations.ofDefinitions definitions) config)
  let c ← ((Declarations.ofDefinitions definitions).compile config).mapError fun e =>
    .crash (.definition e)
  return { c with notes := remarks definitions ++ c.notes }

def lines (registry : Registry) (keys : List String) : String :=
  String.join (keys.map fun key => s!"{key}: {registry.line (.named key)}\n")

def listing (registry : Registry) : String :=
  if registry.keys.isEmpty then "No types found in the schema.\n" else lines registry registry.keys

/-- Lines are printed one by one, and what has been printed stays. -/
def list (stack : Stack) (registry : Registry) : Run Report :=
  if registry.keys.any fun key => stack (.line registry key) then
    throw
      { output := lines registry (registry.keys.takeWhile fun key => !stack (.line registry key))
        ending := .crash .noStack }
  else return .success (listing registry)

def summarize (stack : Stack) (registry : Registry) : Run Report := do
  stack.allow (.summary registry)
  return .success (registry.serialize ++ "\n")

def readValue (stack : Stack) (files : Files) (path : String) : Run Value := do
  let text ← readFile files "data" path
  stack.allow (.document text)
  match Json.read text with
  | .ok j => return Value.ofJson j
  | .error e =>
    match e.fault with
    | .longInteger digits => throw (.crash (.longInteger digits))
    | .tooDeep => throw (.crash .deepData)
    | _ => throw (.failure s!"invalid JSON in '{path}': {e.message text}")

/-- Checks the value of a file against a compiled type. -/
def check (stack : Stack) (r : Request) (files : Files) (registry : Registry) : Run Report := do
  let key ← r.operand 1
  if (registry.find? key).isNone then
    throw (.failure s!"type '{key}' is not defined by the schema.")
  let v ← readValue stack files (Files.path (← r.operand 2))
  stack.allow (.conversion registry key v)
  match registry.create (.named key) v with
  | .ok _ => return .success "Valid.\n"
  | .error (.conversion e) => throw (.failure e.message)
  | .error (.fault f) => throw (.crash (.fault f))

def respond (stack : Stack) (r : Request) (files : Files) (registry : Registry) : Run Report :=
  match r.command with
  | .compile => if r.json then summarize stack registry else list stack registry
  | .validate => check stack r files registry

/-- Remarks are shown only when they are asked for. -/
def run (stack : Stack) (r : Request) (files : Files) : Report :=
  match compile stack r files with
  | .error report => report
  | .ok c =>
    let report := match respond stack r files c.registry with
      | .ok report | .error report => report
    if r.verbose then report.remark c.notes else report

end Request

/-- Without a command the program shows its help. -/
def runOn (stack : Stack) (arguments : List String) (files : Files) : Report :=
  match Request.ofArguments arguments with
  | .error stop => .ofStop stop
  | .ok none => .ofStop (.help mainGrammar)
  | .ok (some r) => r.run stack files

/-- A run for which the stack is enough. -/
def run (arguments : List String) (files : Files) : Report := runOn .unbounded arguments files

end CheckedModels.CommandLine
