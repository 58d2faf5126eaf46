import CheckedModels.Entries
import CheckedModels.Text.Basic

/-! Settings of a compilation, by type name. -/
namespace CheckedModels

/-- Which field becomes the identifier of a model. The name need not be that of any field. -/
inductive IdentifierChoice where
  | automatic
  | disabled
  | field (name : Text)
deriving Repr, DecidableEq, Inhabited

structure TypeConfig where
  identifier : IdentifierChoice := .automatic
deriving Repr, DecidableEq, Inhabited

structure Config where
  types : List (Text × TypeConfig) := []
deriving Repr, DecidableEq, Inhabited

namespace Config

def forType? (c : Config) (name : String) : Option TypeConfig := c.types.lookup (Text.whole name)

/-- A type without settings takes its first identifier field. -/
def choice (c : Config) (name : String) : IdentifierChoice :=
  ((c.forType? name).map TypeConfig.identifier).getD .automatic

end Config

namespace IdentifierChoice

def permits : IdentifierChoice → String → Bool
  | automatic, _ => true
  | disabled, _ => false
  | field chosen, name => chosen == .whole name

end IdentifierChoice

end CheckedModels
