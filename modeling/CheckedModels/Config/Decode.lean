import CheckedModels.Config.Basic
import CheckedModels.Conversion.Validate
import CheckedModels.Yaml.Data

/-! A configuration read from data. -/
namespace CheckedModels

inductive ConfigError where
  | fileNotFound (path : String)
  | unreadable (reason : String)
  | invalidYaml (label : String)
  | notMapping (label : String)
  | typesNotMapping (label : String)
  | entryNotMapping (label : String) (name : Text)
  | unknownKeys (label : String) (keys : List Text)
  | invalid (label : Option String) (model : String) (issues : List Issue)
deriving Repr, Inhabited

def ConfigError.message : ConfigError → Text
  | fileNotFound path => s!"Config file not found: {path}"
  | unreadable reason => s!"Cannot read config file: {reason}"
  | invalidYaml label => s!"Invalid YAML in {label}"
  | notMapping label => s!"{label}: compile config must be a YAML mapping"
  | typesNotMapping label => s!"{label}: 'types' must be a mapping"
  | entryNotMapping label name => s!"{label}: types." ++ name ++ " must be a mapping"
  | unknownKeys label keys => s!"{label}: unknown keys: " ++ Text.intercalate ", " keys
  | invalid label model issues =>
    let noun := if issues.length = 1 then "error" else "errors"
    (label.map (· ++ ": ")).getD "" ++
      s!"Invalid compile configuration: {issues.length} validation {noun} for {model}"

/-- Why no configuration comes out. Unknown keys that are not text cannot even be listed, and a name
may be an integer that is too long to be written. -/
inductive ConfigFailure where
  | config (e : ConfigError)
  | keysNotText
  | unwritableName
deriving Repr, Inhabited

namespace Config

open Yaml

/-- A key as a place. Moments are shown by their numbers. -/
def atomStep : Atom → Step
  | .scalar s => s.step
  | .moment m => .key m.literal
  | a => .key ((a.display?.map Text.visible).getD "")

/-- The names under which the identifier may be given; the first that is there counts. -/
def identifierKeys : List String := ["identifier", "identifier_field_name", "identifierFieldName"]

def entryOf? (entries : List (Atom × Data)) (key : String) : Option Data :=
  match entries with
  | [] => none
  | (.scalar (.str k), d) :: rest => if k = .whole key then some d else entryOf? rest key
  | _ :: rest => entryOf? rest key

/-- Bytes are text in their usual encoding. -/
def textOf? : Atom → Option Text
  | .scalar (.str s) => some s
  | .bytes content => (String.fromUTF8? (content.map (·.toUInt8)).toByteArray).map .whole
  | _ => none

def textCause : Atom → Cause
  | .bytes _ => .notText
  | _ => .notString

def readIdentifier : Data → Except (List Issue) IdentifierChoice
  | .atom (.scalar .null) => .ok .disabled
  | .atom a =>
    match textOf? a with
    | some s => .ok (.field s)
    | none => .error [.plain [.key "identifier"] (textCause a)]
  | _ => .error [.plain [.key "identifier"] .notString]

def isBrokenText : Atom → Bool
  | .scalar s => s.isBroken
  | _ => false

/-- What is wrong with a key that is not the one the identifier was taken from. -/
def strayKey (used : Option String) (a : Atom) : Option Issue :=
  match a with
  | .scalar (.str (.whole s)) => if used = some s then none else some (.plain [.key s] .extraKey)
  | _ => some (.plain [atomStep a] .keyNotString)

/-- Of keys with broken text nothing else is said. -/
def readEntry : Data → Except (List Issue) TypeConfig
  | .dict entries =>
    if entries.any fun e => isBrokenText e.1 then .error [.plain [] .notText]
    else
    let used := identifierKeys.find? fun key => (entryOf? entries key).isSome
    let choice := ((used.bind (entryOf? entries)).map readIdentifier).getD (.ok .automatic)
    let strays := entries.filterMap fun e => strayKey used e.1
    match choice, strays with
    | .ok c, [] => .ok ⟨c⟩
    | .ok _, strays => .error strays
    | .error issues, strays => .error (issues ++ strays)
  | _ => .error [.plain [] (.notModel "TypeConfig")]

/-- The name of an entry; all entries are read before names are looked at. -/
def readName (a : Atom) : Except (List Issue) Text :=
  match textOf? a with
  | some s => .ok s
  | none => .error [.plain [.key "types", atomStep a, .key "[key]"] (textCause a)]

def readNames : List (Atom × TypeConfig) → Except (List Issue) (List (Text × TypeConfig))
  | [] => .ok []
  | (a, c) :: rest =>
    match readName a, readNames rest with
    | .ok s, .ok more => .ok ((s, c) :: more)
    | .ok _, .error issues => .error issues
    | .error issues, .ok _ => .error issues
    | .error issues, .error more => .error (issues ++ more)

/-- The first bad entry is reported. -/
def ofEntries (label : Option String) (entries : List (Atom × Data)) : Except ConfigError Config := do
  let read ← entries.mapM fun e =>
    match readEntry e.2 with
    | .ok c => .ok (e.1, c)
    | .error issues => .error (ConfigError.invalid label "TypeConfig" issues)
  match readNames read with
  | .ok types => return ⟨Entries.ofPairsBy (· == ·) types⟩
  | .error issues => throw (.invalid label "CompileConfig" issues)

def isDict : Data → Bool
  | .dict _ => true
  | _ => false

def typesKey : Atom → Bool
  | .scalar (.str s) => s == .whole "types"
  | _ => false

/-- The keys beside `types`, sorted. -/
def unknownKeys (label : String) (keys : List Atom) : Except ConfigFailure Unit :=
  let unknown := keys.filter fun a => !typesKey a
  if unknown.isEmpty then .ok ()
  else
    match unknown.mapM fun a => match a with
      | .scalar (.str s) => some s
      | _ => none with
    | some names => .error (.config (.unknownKeys label (names.mergeSort Text.le)))
    | none => .error .keysNotText

/-- The shape of the whole document is checked from the outside in. -/
def ofData (label : String) : Data → Except ConfigFailure Config
  | .atom (.scalar .null) => .ok {}
  | .dict entries => do
    let types := (entryOf? entries "types").getD .null
    let listed ← match types with
      | .dict listed => pure listed
      | types => if types.isBlank then pure [] else throw (.config (.typesNotMapping label))
    match listed.find? fun e => !isDict e.2 with
    | some (name, _) =>
      match name.display? with
      | some name => throw (.config (.entryNotMapping label name))
      | none => throw .unwritableName
    | none => pure ()
    unknownKeys label (entries.map Prod.fst)
    (ofEntries (some label) listed).mapError .config
  | _ => .error (.config (.notMapping label))

end Config

end CheckedModels
