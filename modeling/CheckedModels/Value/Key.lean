import CheckedModels.Decimal.Shortest
import CheckedModels.Entries
import CheckedModels.Value.Basic

/-! When two keys are the same key. -/
namespace CheckedModels

def integerOf? (x : Float) : Option Int :=
  match Decimal.decode x with
  | .zero _ => some 0
  | .finite negative b =>
    let scaled := b.mantissa * Nat.pow 2 b.exponent.toNat
    let unit := Nat.pow 2 (-b.exponent).toNat
    if scaled % unit = 0 then
      some (if negative then -((scaled / unit : Nat) : Int) else ((scaled / unit : Nat) : Int))
    else none
  | _ => none

namespace Scalar

/-- A truth value counts as one or zero, and a double that is an integer as that integer. -/
def integer? : Scalar → Option Int
  | bool b => some (if b then 1 else 0)
  | int n => some n
  | float x => integerOf? x
  | _ => none

def sameKey : Scalar → Scalar → Bool
  | null, null => true
  | str a, str b => a == b
  | a, b =>
    match a.integer?, b.integer? with
    | some m, some n => m == n
    | none, none =>
      match a, b with
      | float x, float y => x == y
      | _, _ => false
    | _, _ => false

end Scalar

namespace Value

def dictOf (pairs : List (Scalar × Value)) : Value :=
  dict (Entries.ofPairsBy Scalar.sameKey pairs)

end Value

end CheckedModels
