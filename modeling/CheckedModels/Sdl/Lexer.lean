import CheckedModels.Sdl.BlockString
import CheckedModels.Sdl.Token
import CheckedModels.Text.Escape
import CheckedModels.Text.Surrogate

/-! From characters to tokens. -/
namespace CheckedModels.Sdl

def fail {α : Type} (offset : Nat) (complaint : Complaint) : Except Error α :=
  throw ⟨offset, complaint⟩

def isNameStart (c : Char) : Bool := c.isAlpha || c == '_'

def isNamePart (c : Char) : Bool := c.isAlphanum || c == '_'

/-- Commas count as blanks between tokens. -/
def isIgnored (c : Char) : Bool :=
  c == ' ' || c == '\t' || c == ',' || c == '\uFEFF' || c == '\n' || c == '\r'

def isLineEnd (c : Char) : Bool := c == '\n' || c == '\r'

/-- The count of digits that come next; there has to be one. -/
def digits (offset : Nat) (cs : List Char) : Except Error Nat :=
  let count := (cs.takeWhile Char.isDigit).length
  if count = 0 then fail offset (.expectedDigit cs.head?) else .ok count

/-- The length of a number's part before the point. A zero stands alone. -/
def wholePart (offset : Nat) : List Char → Except Error Nat
  | '0' :: c :: _ => if c.isDigit then fail (offset + 1) (.digitAfterZero c) else .ok 1
  | cs => digits offset cs

def fractionPart (offset : Nat) : List Char → Except Error Nat
  | '.' :: rest => do return (← digits (offset + 1) rest) + 1
  | _ => .ok 0

def exponentPart (offset : Nat) : List Char → Except Error Nat
  | mark :: rest =>
    if mark == 'e' || mark == 'E' then do
      let signs := (rest.head?.filter fun c => c == '+' || c == '-').toList.length
      return (← digits (offset + 1 + signs) (rest.drop signs)) + 1 + signs
    else .ok 0
  | [] => .ok 0

/-- A number and its length. Neither a point nor a name may follow it. -/
def number (offset : Nat) (cs : List Char) : Except Error (Lexeme × Nat) := do
  let sign := if cs.head? = some '-' then 1 else 0
  let whole := sign + (← wholePart (offset + sign) (cs.drop sign))
  let places ← fractionPart (offset + whole) (cs.drop whole)
  let power ← exponentPart (offset + whole + places) (cs.drop (whole + places))
  let length := whole + places + power
  match cs.drop length with
  | c :: _ => if c == '.' || isNameStart c then fail (offset + length) (.expectedDigit (some c))
  | [] => pure ()
  let text := String.ofList (cs.take length)
  return (if places + power = 0 then .int text else .float text, length)

/-- Reads the digits of an escape in braces, of which `size` characters are read and at most `left`
more may follow. Gives the length of the escape, and its character if it has one. -/
def bracedEscape (point size : Nat) : Nat → List Char → Option Char × Nat
  | left + 1, c :: rest =>
    if c == '\x7d' then
      (if 5 ≤ size + 1 && point.isValidChar then some (Char.ofNat point) else none, size + 1)
    else
      match Text.hexDigit? c with
      | some d => bracedEscape (16 * point + d) (size + 1) left rest
      | none => (none, size + 1)
  | _, _ => (none, size)

def fixedEscape (cs : List Char) : Option (Char × Nat) :=
  match Text.hexFour? (cs.drop 2) with
  | none => none
  | some n =>
    if n.isValidChar then some (Char.ofNat n, 6)
    else if Text.isHighSurrogate n && (cs.drop 6).take 2 == ['\\', 'u'] then
      match Text.hexFour? (cs.drop 8) with
      | some low =>
        if Text.isLowSurrogate low then some (Text.joinSurrogates n low, 12) else none
      | none => none
    else none

def escape (offset : Nat) (cs : List Char) : Except Error (Char × Nat) :=
  match cs with
  | _ :: 'u' :: '\x7b' :: rest =>
    match bracedEscape 0 3 (min 12 cs.length - 3) rest with
    | (some c, size) => .ok (c, size)
    | (none, size) => fail offset (.badUnicodeEscape (String.ofList (cs.take size)))
  | _ :: 'u' :: _ =>
    match fixedEscape cs with
    | some found => .ok found
    | none => fail offset (.badUnicodeEscape (String.ofList (cs.take 6)))
  | _ :: c :: _ =>
    match Text.simpleEscape? c with
    | some plain => .ok (plain, 2)
    | none => fail offset (.badEscape (String.ofList (cs.take 2)))
  | _ => fail offset (.badEscape (String.ofList cs))

/-- The decoded rest of a string, and its length with the closing quote. -/
def stringBody (offset : Nat) (cs : List Char) : Except Error (List Char × Nat) :=
  match cs with
  | [] => fail offset .unterminatedString
  | c :: rest =>
    if c == '"' then .ok ([], 1)
    else if isLineEnd c then fail offset .unterminatedString
    else if c == '\\' then do
      let (plain, size) ← escape offset cs
      let (value, length) ← stringBody (offset + size) (rest.drop (size - 1))
      return (plain :: value, size + length)
    else do
      let (value, length) ← stringBody (offset + 1) rest
      return (c :: value, length + 1)
termination_by cs.length
decreasing_by all_goals simp; try omega

/-- The rest of a block string with its line ends made equal, and its length with the closing
quotes. -/
def blockBody (offset : Nat) : List Char → Except Error (List Char × Nat)
  | '"' :: '"' :: '"' :: _ => .ok ([], 3)
  | '\\' :: '"' :: '"' :: '"' :: rest => do
    let (value, length) ← blockBody (offset + 4) rest
    return ('"' :: '"' :: '"' :: value, length + 4)
  | '\r' :: '\n' :: rest => do
    let (value, length) ← blockBody (offset + 2) rest
    return ('\n' :: value, length + 2)
  | c :: rest => do
    let (value, length) ← blockBody (offset + 1) rest
    return ((if c == '\r' then '\n' else c) :: value, length + 1)
  | [] => fail offset .unterminatedString

/-- Three dots are a token; one or two are not. -/
def dots (offset : Nat) : List Char → Except Error (Lexeme × Nat)
  | '.' :: '.' :: '.' :: _ => .ok (.punctuator .spread, 3)
  | '.' :: '.' :: _ => fail offset .twoDots
  | '.' :: rest =>
    let places := rest.takeWhile Char.isDigit
    if places.isEmpty then fail offset (.character '.')
    else fail offset (.missingWholePart (String.ofList places))
  | cs => fail offset (.character (cs.head?.getD '.'))

/-- The token at the start of a text that begins with no ignored character, and its length. -/
def Lexeme.scan (offset : Nat) (c : Char) (rest : List Char) : Except Error (Lexeme × Nat) :=
  if let some p := Punctuator.ofChar? c then .ok (.punctuator p, 1)
  else if isNameStart c then
    let tail := rest.takeWhile isNamePart
    .ok (.name (String.ofList (c :: tail)), tail.length + 1)
  else if c.isDigit || c == '-' then number offset (c :: rest)
  else if c == '.' then dots offset (c :: rest)
  else if c == '"' then
    if rest.take 2 == ['"', '"'] then do
      let (raw, length) ← blockBody (offset + 3) (rest.drop 2)
      return (.blockString (dedent raw), length + 3)
    else do
      let (value, length) ← stringBody (offset + 1) rest
      return (.string (String.ofList value), length + 1)
  else if c == '\'' then fail offset .singleQuote
  else fail offset (.character c)

/-- A number sign starts a comment that ends with its line. -/
def Tokens.scan (offset : Nat) (cs : List Char) : Tokens :=
  match cs with
  | [] => .done offset
  | c :: rest =>
    if isIgnored c then scan (offset + 1) rest
    else if c == '#' then
      let length := (rest.takeWhile fun c => !isLineEnd c).length
      scan (offset + 1 + length) (rest.drop length)
    else
      match Lexeme.scan offset c rest with
      | .error e => .broken e
      | .ok (lexeme, length) =>
        .next ⟨offset, lexeme⟩ (scan (offset + length) (rest.drop (length - 1)))
termination_by cs.length
decreasing_by all_goals simp; try omega

def Tokens.ofText (text : String) : Tokens := scan 0 text.toList

end CheckedModels.Sdl
