import CheckedModels.CommandLine.Parse

/-! The commands of the program. -/
namespace CheckedModels.CommandLine

def mainGrammar : Grammar where
  program := "graphql-models"
  usage := "usage: graphql-models [-h] [-v] COMMAND ..."
  details := "\n".intercalate [
    "graphql-models: runtime-checked data models compiled from GraphQL schemas",
    "",
    "positional arguments:",
    "  COMMAND",
    "    compile      Compile a schema and list the resulting types",
    "    validate     Check a JSON document against a compiled type",
    "",
    "options:",
    "  -h, --help     show this help message and exit",
    "  -v, --verbose  Log compiler diagnostics to stderr"]
  flags := [("-h", .help), ("--help", .help), ("-v", .verbose), ("--verbose", .verbose)]
  operands := ["COMMAND"]
  takesRest := true
  required := false

def compileGrammar : Grammar where
  program := "graphql-models compile"
  usage := "usage: graphql-models compile [-h] [--config CONFIG] [--json] schema"
  details := "\n".intercalate [
    "Compile a GraphQL schema file and print the compiled type descriptors.",
    "",
    "positional arguments:",
    "  schema           Path to a .graphql schema file",
    "",
    "options:",
    "  -h, --help       show this help message and exit",
    "  --config CONFIG  YAML file with per-type settings (e.g. identifier fields)",
    "  --json           Print a JSON summary instead of one line per type"]
  flags := [("-h", .help), ("--help", .help), ("--config", .config), ("--json", .json)]
  operands := ["schema"]

def validateGrammar : Grammar where
  program := "graphql-models validate"
  usage := "usage: graphql-models validate [-h] [--config CONFIG] schema type data"
  details := "\n".intercalate [
    "Build an instance of a compiled type from a JSON file and report conversion",
    "errors.",
    "",
    "positional arguments:",
    "  schema           Path to a .graphql schema file",
    "  type             Name of the type to build",
    "  data             Path to a JSON file holding the instance data",
    "",
    "options:",
    "  -h, --help       show this help message and exit",
    "  --config CONFIG  YAML file with per-type settings (e.g. identifier fields)"]
  flags := [("-h", .help), ("--help", .help), ("--config", .config)]
  operands := ["schema", "type", "data"]

inductive Command where
  | compile
  | validate
deriving Repr, DecidableEq

namespace Command

def name : Command → String
  | compile => "compile"
  | validate => "validate"

def all : List Command := [compile, validate]

def grammar : Command → Grammar
  | compile => compileGrammar
  | validate => validateGrammar

end Command

/-- What the program is asked to do. An operand may be there without a value, and an empty name of a
configuration is none. -/
structure Request where
  verbose : Bool
  command : Command
  config : Option String
  json : Bool
  operands : List (Option String)
deriving Repr, DecidableEq

namespace Request

/-- Arguments that nothing takes are reported last, those of the main command first. -/
def finish {α : Type} (made : α) (extras : List String) : Except Stop α :=
  if extras.isEmpty then .ok made else .error (.misuse mainGrammar (.unrecognized extras))

/-- Without a command there is nothing to do. -/
def ofArguments (arguments : List String) : Except Stop (Option Request) := do
  let p ← mainGrammar.parse arguments
  match p.operands with
  | [] => finish none p.extras
  | first :: rest =>
    let given := first.getD ""
    match Command.all.find? fun c => c.name == given with
    | none =>
      throw (.misuse mainGrammar (.invalidChoice "COMMAND" given (Command.all.map Command.name)))
    | some command => do
      let q ← command.grammar.parse (rest.map fun word => word.getD "")
      finish (some
        { verbose := p.has .verbose
          command
          config := (q.value? .config).filter (!·.isEmpty)
          json := q.has .json
          operands := q.operands }) (p.extras ++ q.extras)

end Request

end CheckedModels.CommandLine
