import CheckedModels.Declaration.Kinds
import CheckedModels.Sdl.Parser

/-! The declarations of a schema text. Definitions that declare no type add nothing. -/
namespace CheckedModels.Declarations

def declared? : Sdl.Definition → Option Declaration
  | .declared d => some d
  | .skipped _ => none

def skipped? : Sdl.Definition → Option Sdl.Skipped
  | .declared _ => none
  | .skipped kind => some kind

/-- Kinds are looked up last, when every name of the text is known. -/
def ofDefinitions (definitions : List Sdl.Definition) : Declarations :=
  (ofList (definitions.filterMap declared?)).resolveKinds

/-- The declarations of a text for a parser that follows only so many open brackets. The grammar itself
has no limit. -/
def ofTextWithin (limit : Nat) (text : String) : Except Sdl.Error Declarations :=
  return ofDefinitions (← Sdl.readWithin limit text)

def ofText (text : String) : Except Sdl.Error Declarations := ofTextWithin Sdl.depthLimit text

end CheckedModels.Declarations
