import CheckedModels.Decimal.Text
import CheckedModels.Text.Quoted
import CheckedModels.Value.Basic

/-! A value on one line, as messages show it. -/
namespace CheckedModels

def Scalar.literal : Scalar → String
  | .null => "None"
  | .bool b => if b then "True" else "False"
  | .int n => toString n
  | .float x => Decimal.text x
  | .str s => Text.quoted s

namespace Value

mutual

/-- An instance shows its attributes, not the names of the schema. -/
def literal : Value → String
  | scalar s => s.literal
  | list items => "[" ++ ", ".intercalate (literalItems items) ++ "]"
  | tuple [v] => "(" ++ v.literal ++ ",)"
  | tuple items => "(" ++ ", ".intercalate (literalItems items) ++ ")"
  | dict entries => "\x7b" ++ ", ".intercalate (literalEntries entries) ++ "\x7d"
  | .instance _ _ name _ held => name ++ "(" ++ ", ".intercalate (literalHeld held) ++ ")"

def literalItems : List Value → List String
  | [] => []
  | v :: rest => v.literal :: literalItems rest

def literalEntries : List (Scalar × Value) → List String
  | [] => []
  | (key, v) :: rest => (key.literal ++ ": " ++ v.literal) :: literalEntries rest

def literalHeld : List (String × Value) → List String
  | [] => []
  | (name, v) :: rest => (name ++ "=" ++ v.literal) :: literalHeld rest

end

/-- As `literal`, but text stands for itself. -/
def display : Value → Text
  | scalar (.str t) => t
  | v => v.literal

end Value

end CheckedModels
