/-! The shortest decimal that reads back as a given double. -/
namespace CheckedModels.Decimal

structure Scientific where
  digits : Nat
  exponent : Int
deriving Repr, DecidableEq

/-- A positive double `mantissa * 2 ^ exponent`. `tight` marks a mantissa whose lower neighbour is
only half as far away as the upper one. -/
structure Binary where
  mantissa : Nat
  exponent : Int
  tight : Bool
deriving Repr, DecidableEq

/-- Quarters of a unit in the last place, over a common denominator. -/
structure Bounds where
  low : Nat
  value : Nat
  high : Nat
  denominator : Nat
  closed : Bool

/-- The reals that round to the double; both ends belong when the mantissa is even. -/
def Binary.bounds (b : Binary) : Bounds :=
  let scale := Nat.pow 2 (b.exponent - 2).toNat
  { low := (4 * b.mantissa - if b.tight then 1 else 2) * scale
    value := 4 * b.mantissa * scale
    high := (4 * b.mantissa + 2) * scale
    denominator := Nat.pow 2 (2 - b.exponent).toNat
    closed := b.mantissa % 2 == 0 }

def decimalLength (n : Nat) : Nat := (Nat.toDigits 10 n).length

/-- The number of digits before the point, negative when zeros follow the point. -/
def Bounds.magnitude (b : Bounds) : Int :=
  if b.denominator ≤ b.value then decimalLength (b.value / b.denominator)
  else 1 - (decimalLength (b.denominator / b.value) : Int)

def Bounds.admits (b : Bounds) (up candidate : Nat) (down : Nat) : Bool :=
  let c := candidate * b.denominator * down
  if b.closed then b.low * up ≤ c && c ≤ b.high * up else b.low * up < c && c < b.high * up

/-- The nearest of the two neighbours on the grid of a digit count that rounds to the double. -/
def Bounds.onGrid (b : Bounds) (magnitude : Int) (count : Nat) : Option Scientific :=
  let exponent := magnitude - count
  let up := Nat.pow 10 (-exponent).toNat
  let down := Nat.pow 10 exponent.toNat
  let unit := b.denominator * down
  let floor := b.value * up / unit
  let rest := b.value * up % unit
  let below := b.admits up floor down
  let above := b.admits up (floor + 1) down
  let nearer := if 2 * rest < unit then floor
    else if unit < 2 * rest then floor + 1
    else if floor % 2 == 0 then floor else floor + 1
  match below, above with
  | true, true => some ⟨nearer, exponent⟩
  | true, false => some ⟨floor, exponent⟩
  | false, true => some ⟨floor + 1, exponent⟩
  | false, false => none

/-- Seventeen digits always tell two doubles apart. -/
def Binary.shortest (b : Binary) : Scientific :=
  let bounds := b.bounds
  let magnitude := bounds.magnitude
  ((List.range 17).findSome? fun n => bounds.onGrid magnitude (n + 1)).getD ⟨b.mantissa, 0⟩

inductive Decoded where
  | nan
  | infinite (negative : Bool)
  | zero (negative : Bool)
  | finite (negative : Bool) (size : Binary)
deriving Repr, DecidableEq

def decode (f : Float) : Decoded :=
  let bits := f.toBits.toNat
  let unit := 0x10000000000000
  let negative := 0x8000000000000000 ≤ bits
  let biased : Nat := bits / unit % 0x800
  let fraction : Nat := bits % unit
  if biased = 0x7ff then if fraction = 0 then .infinite negative else .nan
  else if biased = 0 then
    if fraction = 0 then .zero negative else .finite negative ⟨fraction, -1074, false⟩
  else .finite negative ⟨unit + fraction, (biased : Int) - 1075, fraction = 0 && 1 < biased⟩

end CheckedModels.Decimal
