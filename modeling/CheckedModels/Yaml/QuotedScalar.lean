import CheckedModels.Text.Escape
import CheckedModels.Text.Basic
import CheckedModels.Yaml.Cursor

/-! Scalars in single or double quotes. Line breaks in them are folded. -/
namespace CheckedModels.Yaml

open Scanner

def namedEscape? : Char → Option Char
  | '0' => some '\x00'
  | 'a' => some '\x07'
  | 'b' => some '\x08'
  | 't' | '\t' => some '\t'
  | 'n' => some '\n'
  | 'v' => some '\x0b'
  | 'f' => some '\x0c'
  | 'r' => some '\r'
  | 'e' => some '\x1b'
  | ' ' => some ' '
  | '"' => some '"'
  | '\\' => some '\\'
  | '/' => some '/'
  | 'N' => some '\x85'
  | '_' => some '\xa0'
  | 'L' => some '\u2028'
  | 'P' => some '\u2029'
  | _ => none

def numericEscape? : Char → Option Nat
  | 'x' => some 2
  | 'u' => some 4
  | 'U' => some 8
  | _ => none

/-- Empty lines in quotes, and the blanks before the text goes on. The fuel is the text's length. -/
def quotedBreaks : Nat → Scanner (List Char)
  | 0 => return []
  | fuel + 1 => do
    if ← atDocumentMark then fail
    skipWhile isBlank
    match ← lineBreak? with
    | none => return []
    | some b => return b :: (← quotedBreaks fuel)

/-- Blanks in quotes. Those around a line break go, and the break is folded. -/
def quotedGap : Scanner (List Char) := do
  let blanks ← takeWhile isBlank
  match ← lineBreak? with
  | none => return blanks
  | some b => return folded b (← quotedBreaks ((← rest).length + 1))

def codesOf (cs : List Char) : List Nat := cs.map Char.toNat

/-- A number beyond the last code point is no character. -/
def characterCode (n : Nat) : Except Failure Nat :=
  if n < 0x110000 then .ok n
  else if n < 0x80000000 then .error (.badValue "chr() arg not in range(0x110000)")
  else .error .tooLarge

/-- The code points that the escape after a backslash stands for. An escaped line break stands for
nothing. -/
def doubleEscape : Scanner (List Nat) := do
  let some c ← peek | fail
  if let some plain := namedEscape? c then
    skip 1
    return [plain.toNat]
  else if let some size := numericEscape? c then
    skip 1
    let digits := (← rest).take size
    let some code := Text.hexValue? digits | fail
    require (digits.length = size)
    skip size
    return [← characterCode code]
  else
    require (← lineBreak?).isSome
    return codesOf (← quotedBreaks ((← rest).length + 1))

/-- The rest of a scalar in double quotes. The fuel is the text's length. -/
def doubleQuoted : Nat → Scanner (List Nat)
  | 0 => fail
  | fuel + 1 => do
    match ← peek with
    | none => fail
    | some '"' =>
      skip 1
      return []
    | some '\\' =>
      skip 1
      let text ← doubleEscape
      return text ++ (← doubleQuoted fuel)
    | some c =>
      if endsWord (some c) then
        let gap ← quotedGap
        return codesOf gap ++ (← doubleQuoted fuel)
      skip 1
      return c.toNat :: (← doubleQuoted fuel)

/-- The rest of a scalar in single quotes, in which two quotes stand for one. The fuel is the text's
length. -/
def singleQuoted : Nat → Scanner (List Char)
  | 0 => fail
  | fuel + 1 => do
    match ← peek with
    | none => fail
    | some '\'' =>
      skip 1
      if ← accept '\'' then return '\'' :: (← singleQuoted fuel)
      return []
    | some c =>
      if endsWord (some c) then
        let gap ← quotedGap
        return gap ++ (← singleQuoted fuel)
      skip 1
      return c :: (← singleQuoted fuel)

def quotedScalar (quote : Char) : Scanner Text := do
  skip 1
  let fuel := (← rest).length + 1
  if quote == '"' then return Text.ofCodes (← doubleQuoted fuel)
  else return String.ofList (← singleQuoted fuel)

end CheckedModels.Yaml
