import CheckedModels.Config.Decode
import CheckedModels.Files.Basic
import CheckedModels.Yaml.Construct

/-! A configuration read from a YAML file. -/
namespace CheckedModels

/-- Why no configuration comes out of a file. Only the first has a report of its own. -/
inductive LoadFailure where
  | config (e : ConfigError)
  | keysNotText
  | unwritableName
  | text (f : TextFault)
  | data (f : Yaml.Failure)
deriving Repr

namespace Config

/-- How deep the mappings of a configuration are. -/
def depth : Nat := 3

def ofText (label text : String) : Except LoadFailure Config :=
  match Yaml.Data.ofText depth text with
  | .error .malformed => .error (.config (.invalidYaml label))
  | .error f => .error (.data f)
  | .ok d =>
    match ofData label d with
    | .ok config => .ok config
    | .error (.config e) => .error (.config e)
    | .error .keysNotText => .error .keysNotText
    | .error .unwritableName => .error .unwritableName

def load (files : Files) (path : String) : Except LoadFailure Config :=
  let path := Files.path path
  match files.readText path with
  | .ok text => ofText path text
  | .error (.text f) => .error (.text f)
  | .error (.file f) =>
    .error (.config (if f = .missing then .fileNotFound path else .unreadable (f.message path)))

end Config

end CheckedModels
