import CheckedModels.Decimal.Shortest

/-! Doubles as text: positional from `0.0001` up to sixteen digits before the point, with an
exponent beyond. -/
namespace CheckedModels.Decimal

def zeros (n : Nat) : String := String.ofList (List.replicate n '0')

def significant (n : Nat) : List Char :=
  (((Nat.toDigits 10 n).reverse).dropWhile (· == '0')).reverse

/-- At least two digits, after a sign. -/
def exponentText (e : Int) : String :=
  let size := toString e.natAbs
  (if e < 0 then "e-" else "e+") ++ (if size.length < 2 then "0" ++ size else size)

/-- The point stands `point` places after the start of the digits. -/
def layout (digits : List Char) (point : Int) : String :=
  let text := String.ofList digits
  if -4 < point && point ≤ 16 then
    if point ≤ 0 then "0." ++ zeros (-point).toNat ++ text
    else if digits.length ≤ point.toNat then text ++ zeros (point.toNat - digits.length) ++ ".0"
    else String.ofList (digits.take point.toNat) ++ "." ++ String.ofList (digits.drop point.toNat)
  else
    match digits with
    | [d] => d.toString ++ exponentText (point - 1)
    | d :: rest => d.toString ++ "." ++ String.ofList rest ++ exponentText (point - 1)
    | [] => "0.0"

def Scientific.text (s : Scientific) : String :=
  layout (significant s.digits) (decimalLength s.digits + s.exponent)

def text (f : Float) : String :=
  match decode f with
  | .nan => "nan"
  | .infinite negative => if negative then "-inf" else "inf"
  | .zero negative => if negative then "-0.0" else "0.0"
  | .finite negative size => (if negative then "-" else "") ++ size.shortest.text

def infinity : Float := 1.0 / 0.0

def notANumber : Float := 0.0 / 0.0

def nearest (digits : Nat) (exponent : Int) : Float :=
  let size := decimalLength digits + exponent
  if digits = 0 || size < -400 then 0.0
  else if 400 < size then infinity
  else Float.ofScientific digits (exponent < 0) exponent.natAbs

/-- Integers with more digits are neither read nor written. -/
def maxDigits : Nat := 4300

/-- An integer, unless it is too long. -/
def integerText? (n : Int) : Option String :=
  if Nat.pow 10 maxDigits ≤ n.natAbs then none else some (toString n)

def unwritable : String :=
  s!"Exceeds the limit ({maxDigits} digits) for integer string conversion; " ++
    "use sys.set_int_max_str_digits() to increase the limit"

/-- What is said of an integer with too many digits. -/
def longInteger (digits : Nat) : String :=
  s!"Exceeds the limit ({maxDigits} digits) for integer string conversion: value has " ++
    s!"{digits} digits; use sys.set_int_max_str_digits() to increase the limit"

end CheckedModels.Decimal
