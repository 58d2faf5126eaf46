import CheckedModels.Sdl.Parser

/-! Remarks on what a compilation leaves out. -/
namespace CheckedModels

inductive Note where
  | skippedDefinition (kind : Sdl.Skipped)
  | droppedField (field type : String)
  | unknownInterface (model interface : String)
  | skippedMember (member union : String)
  | compiled (count : Nat)
deriving Repr, DecidableEq

def Note.source : Note → String
  | skippedDefinition _ => "graphql_models.compiler.parser"
  | droppedField _ _ => "graphql_models.compiler.fields"
  | unknownInterface _ _ => "graphql_models.compiler.mapper"
  | skippedMember _ _ => "graphql_models.compiler.builders"
  | compiled _ => "graphql_models.compiler.build"

def Note.message : Note → String
  | skippedDefinition kind => s!"Skipping unsupported definition '{kind.text}'"
  | droppedField field type => s!"Dropping field '{field}': unresolved type '{type}'"
  | unknownInterface model interface => s!"'{model}' implements unknown interface '{interface}'"
  | skippedMember member union =>
    s!"Skipping member '{member}' of union '{union}': not an object type"
  | compiled count => s!"Compiled {count} type(s)"

def Note.line (n : Note) : String := "DEBUG " ++ n.source ++ ": " ++ n.message

end CheckedModels
