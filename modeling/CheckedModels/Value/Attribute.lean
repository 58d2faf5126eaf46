import CheckedModels.Value.Basic

/-! The attributes of an instance. -/
namespace CheckedModels.Value

def attribute? (v : Value) (name : String) : Option Value :=
  match v with
  | .instance _ _ _ _ held => held.lookup name
  | _ => none

/-- Marks an instance that has no number yet. -/
def withSerial (n : Nat) : Value → Value
  | .instance none model name attributes held => .instance (some n) model name attributes held
  | v => v

def serial? : Value → Option Nat
  | .instance n _ _ _ _ => n
  | _ => none

end CheckedModels.Value
