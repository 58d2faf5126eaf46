import CheckedModels.Entries
import CheckedModels.Text.Identifier

/-! The attribute of an instance that holds each property. A property whose name cannot be an
attribute is held under a name with underscores at its end. -/
namespace CheckedModels.AttributeName

def keywords : List String :=
  ["False", "None", "True", "and", "as", "assert", "async", "await", "break", "class", "continue",
    "def", "del", "elif", "else", "except", "finally", "for", "from", "global", "if", "import", "in",
    "is", "lambda", "nonlocal", "not", "or", "pass", "raise", "return", "try", "while", "with",
    "yield"]

/-- The names that every instance has already. -/
def inherited : List String :=
  ["construct", "copy", "dict", "from_orm", "json", "model_computed_fields", "model_config",
    "model_construct", "model_copy", "model_dump", "model_dump_json", "model_extra", "model_fields",
    "model_fields_set", "model_json_schema", "model_parametrized_name", "model_post_init",
    "model_rebuild", "model_validate", "model_validate_json", "model_validate_strings", "mro",
    "parse_file", "parse_obj", "parse_raw", "register", "schema", "schema_json",
    "update_forward_refs", "validate"]

def isPlain (key : String) : Bool :=
  Text.isIdentifier key && !(key.toList.head? == some '_') && !keywords.contains key &&
    !inherited.contains key

/-- The key without its leading underscores, and never empty. -/
def stem (key : String) : String :=
  let rest := key.toList.dropWhile (· == '_')
  if rest.isEmpty then "field" else String.ofList rest

/-- Adds underscores until the name is free; one for each name that is taken is enough. -/
def freeName (taken : List String) (name : String) : Nat → String
  | 0 => name
  | n + 1 => if taken.contains name then freeName taken (name ++ "_") n else name

/-- Plain keys are taken from the start, other names as they are given. -/
def assign (taken : List String) : List String → Entries String
  | [] => []
  | key :: rest =>
    if isPlain key then (key, key) :: assign taken rest
    else
      let name := freeName taken (stem key ++ "_") taken.length
      (key, name) :: assign (name :: taken) rest

def ofKeys (keys : List String) : Entries String := assign (keys.filter isPlain) keys

def ofKey (keys : List String) (key : String) : String := ((ofKeys keys).lookup key).getD key

end CheckedModels.AttributeName
