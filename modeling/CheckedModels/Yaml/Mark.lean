import CheckedModels.Decimal.Text
import CheckedModels.Text.Digits
import CheckedModels.Text.Escape
import CheckedModels.Yaml.Cursor
import CheckedModels.Yaml.Token

/-! Names, tags and directives. -/
namespace CheckedModels.Yaml

open Scanner

def isWordPart (c : Char) : Bool := c.isAlphanum || c == '-' || c == '_'

def word : Scanner String := do
  let letters ← takeWhile isWordPart
  require !letters.isEmpty
  return String.ofList letters

def anchorName : Scanner String := do
  skip 1
  let name ← word
  let next ← peek
  require (endsWord next || next.any "?:,]\x7d%@\x60".toList.contains)
  return name

def isUriPart (c : Char) : Bool := c.isAlphanum || "-;/?:@&=+$,_.!~*'()[]".toList.contains c

/-- Characters given by their bytes. The fuel is the text's length. -/
def uriBytes : Nat → Scanner (List UInt8)
  | 0 => return []
  | fuel + 1 => do
    if !(← accept '%') then return []
    let digits := (← rest).take 2
    let some byte := Text.hexValue? digits | fail
    require (digits.length = 2)
    skip 2
    return byte.toUInt8 :: (← uriBytes fuel)

/-- The fuel is the text's length. -/
def uriParts : Nat → Scanner (List Char)
  | 0 => return []
  | fuel + 1 => do
    let plain ← takeWhile isUriPart
    let bytes ← uriBytes ((← rest).length + 1)
    if bytes.isEmpty then return plain
    let some text := String.fromUTF8? bytes.toByteArray | fail
    return plain ++ text.toList ++ (← uriParts fuel)

def uri : Scanner String := do
  let text ← uriParts ((← rest).length + 1)
  require !text.isEmpty
  return String.ofList text

/-- A name between exclamation marks, or one exclamation mark before a blank. -/
def tagHandle : Scanner String := do
  expect '!'
  if (← peek) = some ' ' then return "!"
  let name ← takeWhile isWordPart
  expect '!'
  return "!" ++ String.ofList name ++ "!"

/-- Whether a second exclamation mark stands in the same word. -/
def hasHandle (cs : List Char) : Bool := (cs.takeWhile fun c => !endsField (some c)).contains '!'

def tagMark : Scanner TagMark := do
  let mark ← match (← rest).drop 1 with
    | '<' :: _ => do
      skip 2
      let suffix ← uri
      expect '>'
      pure { suffix }
    | next =>
      if endsWord next.head? then do
        skip 1
        pure { suffix := "!" }
      else if hasHandle next then do
        let handle ← tagHandle
        pure ⟨some handle, ← uri⟩
      else do
        skip 1
        pure ⟨some "!", ← uri⟩
  require (endsField (← peek))
  return mark

def decimalNumber : Scanner Nat := do
  let digits ← takeWhile Char.isDigit
  require !digits.isEmpty
  if Decimal.maxDigits < digits.length then
    throw (.badValue (Decimal.longInteger digits.length))
  return Text.digitsValue digits

def versionDirective : Scanner Directive := do
  skipWhile (· == ' ')
  let major ← decimalNumber
  expect '.'
  let _ ← decimalNumber
  require (endsField (← peek))
  return .version major

def tagDirective : Scanner Directive := do
  skipWhile (· == ' ')
  let handle ← tagHandle
  require ((← peek) = some ' ')
  skipWhile (· == ' ')
  let replacement ← uri
  require (endsField (← peek))
  return .tag handle replacement

/-- Directives of other names say nothing. -/
def directive : Scanner Directive := do
  skip 1
  let name ← word
  require (endsField (← peek))
  let d ← match name with
    | "YAML" => versionDirective
    | "TAG" => tagDirective
    | _ => do
      skipWhile fun c => !isBreak c
      pure .unknown
  finishLine
  return d

end CheckedModels.Yaml
