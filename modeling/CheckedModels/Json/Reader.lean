import CheckedModels.Decimal.Text
import CheckedModels.Entries
import CheckedModels.Json.Basic
import CheckedModels.Text.Digits
import CheckedModels.Text.Escape

/-! Reading a JSON document. `NaN` and the two infinities are numbers here. -/
namespace CheckedModels.Json

inductive ReadFault where
  | value
  | memberName
  | colon
  | comma
  | extraData
  | unterminatedString
  | controlCharacter
  | escape
  | unicodeEscape
  | byteOrderMark
  | longInteger (digits : Nat)
  | tooDeep
deriving Repr, DecidableEq

def ReadFault.message : ReadFault → String
  | .value => "Expecting value"
  | .memberName => "Expecting property name enclosed in double quotes"
  | .colon => "Expecting ':' delimiter"
  | .comma => "Expecting ',' delimiter"
  | .extraData => "Extra data"
  | .unterminatedString => "Unterminated string starting at"
  | .controlCharacter => "Invalid control character at"
  | .escape => "Invalid \\escape"
  | .unicodeEscape => "Invalid \\uXXXX escape"
  | .byteOrderMark => "Unexpected UTF-8 BOM (decode using utf-8-sig)"
  | .longInteger digits => Decimal.longInteger digits
  | .tooDeep => "Nested too deeply"

/-- `offset` counts the characters before the fault. -/
structure ReadError where
  fault : ReadFault
  offset : Nat
deriving Repr, DecidableEq

/-- Lines are counted from one and end at a line feed. -/
def ReadError.message (text : String) (e : ReadError) : String :=
  let before := text.toList.take e.offset
  let line := before.count '\n' + 1
  let column := (before.reverse.takeWhile (· ≠ '\n')).length + 1
  s!"{e.fault.message}: line {line} column {column} (char {e.offset})"

/-- What is left of the text, and how much of it is gone. -/
structure Cursor where
  offset : Nat
  rest : List Char

abbrev Reader := StateT Cursor (Except ReadError)

namespace Reader

def fail {α : Type} (fault : ReadFault) (offset : Nat) : Reader α := throw ⟨fault, offset⟩

def offset : Reader Nat := return (← get).offset

def peek? : Reader (Option Char) := return (← get).rest.head?

def skip (n : Nat) : Reader Unit := modify fun c => ⟨c.offset + n, c.rest.drop n⟩

def takeWhile (p : Char → Bool) : Reader (List Char) := do
  let taken := (← get).rest.takeWhile p
  skip taken.length
  return taken

def blanks : Reader Unit := do
  let _ ← takeWhile fun c => c == ' ' || c == '\t' || c == '\n' || c == '\r'

/-- Takes a fixed text, if it comes next. -/
def accept (text : String) : Reader Bool := do
  if text.toList.isPrefixOf (← get).rest then
    skip text.length
    return true
  return false

end Reader

open Reader

/-- The four digits of a `\u` escape; at least one more character has to follow them. -/
def unicodeEscape (start : Nat) : Reader Nat := do
  let rest := (← get).rest
  match Text.hexFour? rest with
  | some n =>
    if rest.length ≤ 4 then fail .unicodeEscape start
    skip 4
    return n
  | none => fail .unicodeEscape start

/-- The code point that the escape after a backslash at `start` stands for. Two halves of a surrogate
pair make one. -/
def escape (start : Nat) : Reader Nat := do
  match ← peek? with
  | some 'u' =>
    skip 1
    let high ← unicodeEscape (start + 1)
    let rest := (← get).rest
    if Text.isHighSurrogate high && "\\u".toList.isPrefixOf rest && 6 < rest.length then
      match Text.hexFour? (rest.drop 2) with
      | none => fail .unicodeEscape (start + 7)
      | some low =>
        if Text.isLowSurrogate low then
          skip 6
          return (Text.joinSurrogates high low).toNat
    return high
  | some c =>
    match Text.simpleEscape? c with
    | some plain =>
      skip 1
      return plain.toNat
    | none => fail .escape start
  | none => fail .escape start

/-- The rest of a string whose opening quote stands at `start`. The fuel is the text's length. -/
def stringBody (start : Nat) : Nat → List Nat → Reader Text
  | 0, _ => fail .unterminatedString start
  | fuel + 1, done => do
    let here ← offset
    match ← peek? with
    | none => fail .unterminatedString start
    | some '"' =>
      skip 1
      return Text.ofCodes done.reverse
    | some '\\' =>
      skip 1
      if (← peek?).isNone then fail .unterminatedString start
      stringBody start fuel ((← escape here) :: done)
    | some c =>
      if c.toNat < 0x20 then fail .controlCharacter here
      skip 1
      stringBody start fuel (c.toNat :: done)

def string : Reader Text := do
  let start ← offset
  skip 1
  stringBody start ((← get).rest.length + 1) []

def fraction : Reader (List Char) := do
  match (← get).rest with
  | '.' :: d :: _ =>
    if d.isDigit then
      skip 1
      takeWhile Char.isDigit
    else return []
  | _ => return []

/-- An exponent, if at least one digit follows its mark and sign. -/
def exponent? : Reader (Option Int) := do
  match (← get).rest with
  | mark :: more =>
    if mark == 'e' || mark == 'E' then
      let sign := more.head?.filter fun c => c == '+' || c == '-'
      let digits := (more.drop sign.toList.length).takeWhile Char.isDigit
      if digits.isEmpty then return none
      skip (1 + sign.toList.length + digits.length)
      let size : Int := Text.digitsValue digits
      return some (if sign == some '-' then -size else size)
    else return none
  | [] => return none

/-- A number without a point and an exponent is an integer. -/
def number : Reader Json := do
  let start ← offset
  let negative ← accept "-"
  let whole ← match (← get).rest with
    | '0' :: _ => do
      skip 1
      pure ['0']
    | _ => takeWhile Char.isDigit
  if whole.isEmpty then fail .value start
  let places ← fraction
  let power ← exponent?
  if places.isEmpty && power.isNone then
    if Decimal.maxDigits < whole.length then fail (.longInteger whole.length) start
    let size : Int := Text.digitsValue whole
    return .int (if negative then -size else size)
  let size := Decimal.nearest (Text.digitsValue (whole ++ places)) (power.getD 0 - places.length)
  return .float (if negative then -size else size)

/-- How deep arrays and objects may be nested. -/
def maxLevels : Nat := 988

mutual

/-- A value with so many levels below it. Every nested value starts after one more character, so the
text's length is fuel enough. -/
def value (levels : Nat) : Nat → Reader Json
  | 0 => do fail .value (← offset)
  | fuel + 1 => do
    match ← peek? with
    | some '"' => return .str (← string)
    | some '[' =>
      if levels = 0 then fail .tooDeep (← offset)
      skip 1
      blanks
      if ← accept "]" then return .arr []
      return .arr (← items (levels - 1) fuel)
    | some '\x7b' =>
      if levels = 0 then fail .tooDeep (← offset)
      skip 1
      blanks
      if ← accept "\x7d" then return .obj []
      return .obj (Entries.ofPairsBy (· == ·) (← members (levels - 1) fuel))
    | _ =>
      if ← accept "null" then return .null
      if ← accept "true" then return .bool true
      if ← accept "false" then return .bool false
      if ← accept "NaN" then return .float Decimal.notANumber
      if ← accept "Infinity" then return .float Decimal.infinity
      if ← accept "-Infinity" then return .float (-Decimal.infinity)
      number

def items (levels : Nat) : Nat → Reader (List Json)
  | 0 => do fail .value (← offset)
  | fuel + 1 => do
    let first ← value levels fuel
    blanks
    if ← accept "]" then return [first]
    if !(← accept ",") then fail .comma (← offset)
    blanks
    return first :: (← items levels fuel)

def members (levels : Nat) : Nat → Reader (List (Text × Json))
  | 0 => do fail .value (← offset)
  | fuel + 1 => do
    if (← peek?) ≠ some '"' then fail .memberName (← offset)
    let name ← string
    blanks
    if !(← accept ":") then fail .colon (← offset)
    blanks
    let first ← value levels fuel
    blanks
    if ← accept "\x7d" then return [(name, first)]
    if !(← accept ",") then fail .comma (← offset)
    blanks
    return (name, first) :: (← members levels fuel)

end

def document : Reader Json := do
  if (← peek?) = some '\uFEFF' then fail .byteOrderMark 0
  blanks
  let content ← value maxLevels (2 * (← get).rest.length + 2)
  blanks
  if !(← get).rest.isEmpty then fail .extraData (← offset)
  return content

def read (text : String) : Except ReadError Json :=
  document.run' ⟨0, text.toList⟩

end CheckedModels.Json
