import CheckedModels.Decimal.Text
import CheckedModels.Text.DecimalDigit
import CheckedModels.Text.Lowercase
import CheckedModels.Text.Quoted
import CheckedModels.Yaml.Failure
import CheckedModels.Yaml.Tag

/-! Numbers as scalars write them: with underscores, in several bases, and in parts to the base of
sixty. Digits may be those of any script. -/
namespace CheckedModels.Yaml

/-- A number with the digits and blanks of ASCII. What has no place in a number becomes a question
mark. -/
def plainChar (n : Nat) : Char :=
  if n < 0x80 then Char.ofNat n
  else
    match Text.decimalDigit? n with
    | some d => Char.ofNat ('0'.toNat + d)
    | none => if Text.isNumberSpace n then ' ' else '?'

def isSpace (c : Char) : Bool := c == ' ' || ('\t' ≤ c && c ≤ '\r')

def trimmed (cs : List Char) : List Char :=
  ((cs.dropWhile isSpace).reverse.dropWhile isSpace).reverse

def baseLetter (base : Nat) : Option Char :=
  if base = 2 then some 'b' else if base = 8 then some 'o' else if base = 16 then some 'x' else none

/-- A zero and the letter of the base may stand before the digits. -/
def dropBase (base : Nat) : List Char → List Char
  | '0' :: c :: rest => if some c.toLower = baseLetter base then rest else '0' :: c :: rest
  | cs => cs

def isDigitIn (base : Nat) (c : Char) : Bool := (Text.hexDigit? c).any (· < base)

/-- A whole number with a sign of its own. A number that is too long is not even read to its end. -/
def integer (base : Nat) (codes : List Nat) : Except Failure Int :=
  let bare := trimmed (codes.map plainChar)
  let size := dropBase base (Tag.dropSign bare)
  let digits := size.takeWhile (isDigitIn base)
  if base = 10 && Decimal.maxDigits < digits.length then
    .error (.badValue (Decimal.longInteger digits.length))
  else if digits.isEmpty || digits.length < size.length then
    let shown := String.ofList ((Text.quotedCodes codes).toList.take 200)
    .error (.badValue s!"invalid literal for int() with base {base}: {shown}")
  else
    let n : Int := digits.foldl (fun n c => base * n + (Text.hexDigit? c).getD 0) 0
    .ok (if bare.head? = some '-' then -n else n)

def withoutBars (codes : List Nat) : List Nat := codes.filter (· ≠ '_'.toNat)

def dropCodeSign : List Nat → List Nat
  | n :: rest => if n = '+'.toNat || n = '-'.toNat then rest else n :: rest
  | [] => []

def isNegative (codes : List Nat) : Bool := codes.head? == some '-'.toNat

/-- What comes after a zero and a letter. -/
def afterZero? (letter : Char) : List Nat → Option (List Nat)
  | n :: m :: rest => if n = '0'.toNat && m = letter.toNat then some rest else none
  | _ => none

/-- Digits after a zero are octal. -/
def magnitude (codes : List Nat) : Except Failure Int :=
  match afterZero? 'b' codes, afterZero? 'x' codes with
  | some bits, _ => integer 2 bits
  | none, some digits => integer 16 digits
  | none, none =>
    match codes with
    | [] => .error .emptyNumber
    | n :: rest =>
      if n = '0'.toNat then
        if rest.isEmpty then .ok 0 else integer 8 codes
      else if codes.contains ':'.toNat then do
        let parts ← (codes.splitOn ':'.toNat).mapM (integer 10)
        return parts.foldl (fun n part => 60 * n + part) 0
      else integer 10 codes

def intOfText (text : Text) : Except Failure Int := do
  let codes := withoutBars text.codes
  let size ← magnitude (dropCodeSign codes)
  return if isNegative codes then -size else size

def decimal? (cs : List Char) : Option Float :=
  let whole := cs.takeWhile Char.isDigit
  let afterWhole := cs.dropWhile Char.isDigit
  let places := match afterWhole with
    | '.' :: rest => rest.takeWhile Char.isDigit
    | _ => []
  let afterPlaces := match afterWhole with
    | '.' :: rest => rest.dropWhile Char.isDigit
    | rest => rest
  let power : Option Int := match afterPlaces with
    | [] => some 0
    | 'e' :: rest =>
      let digits := Tag.dropSign rest
      let size : Int := Text.digitsValue digits
      if digits.isEmpty || !digits.all Char.isDigit then none
      else some (if rest.head? = some '-' then -size else size)
    | _ => none
  if whole.isEmpty && places.isEmpty then none
  else power.map fun p => Decimal.nearest (Text.digitsValue (whole ++ places)) (p - places.length)

/-- A number in small letters with a sign of its own. -/
def double (codes : List Nat) : Except Failure Float :=
  let bare := trimmed (codes.map plainChar)
  let size := Tag.dropSign bare
  let value? :=
    if size == "inf".toList || size == "infinity".toList then some Decimal.infinity
    else if size == "nan".toList then some Decimal.notANumber
    else decimal? size
  match value? with
  | some x => .ok (if bare.head? = some '-' then -x else x)
  | none => .error (.badValue s!"could not convert string to float: {Text.quotedCodes codes}")

/-- Parts to the base of sixty are added from the last to the first. The unit of each has to be a
double. -/
def sexagesimal (unit : Nat) (sum : Float) : List Float → Except Failure Float
  | [] => .ok sum
  | part :: rest =>
    let size := Decimal.nearest unit 0
    if size == Decimal.infinity then .error .tooLarge
    else sexagesimal (unit * 60) (sum + part * size) rest

/-- The double that a text stands for. There is one that is no number and has a name; it is given as
nothing. -/
def floatOfText (text : Text) : Except Failure (Option Float) := do
  let codes := Text.lower (withoutBars text.codes)
  let size := dropCodeSign codes
  let signed (x : Float) : Option Float := some (if isNegative codes then -x else x)
  if codes.isEmpty then throw .emptyNumber
  if size == (".inf" : Text).codes then return signed Decimal.infinity
  else if size == (".nan" : Text).codes then return none
  else if size.contains ':'.toNat then
    let parts ← (size.splitOn ':'.toNat).mapM double
    return signed (← sexagesimal 1 0.0 parts.reverse)
  else return signed (← double size)

end CheckedModels.Yaml
