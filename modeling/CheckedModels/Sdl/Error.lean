/-! Why a schema text cannot be read, and where. -/
namespace CheckedModels.Sdl

/-- How a character is named in a message; the end of the text has a name too. -/
def characterText : Option Char → String
  | none => "<EOF>"
  | some c =>
    if c == '"' then "'\"'"
    else if 0x20 ≤ c.toNat && c.toNat ≤ 0x7e then String.ofList ['\'', c, '\'']
    else
      let digits := (Nat.toDigits 16 c.toNat).map Char.toUpper
      "U+" ++ String.ofList (List.replicate (4 - digits.length) '0' ++ digits)

inductive Complaint where
  | character (c : Char)
  | singleQuote
  | twoDots
  | missingWholePart (digits : String)
  | digitAfterZero (c : Char)
  | expectedDigit (found : Option Char)
  | unterminatedString
  | badEscape (text : String)
  | badUnicodeEscape (text : String)
  | expected (what found : String)
  | unexpected (found : String)
  | variableInConstant (name : String)
  | reservedName (found : String)
  | describedQuery
  | describedOther
  | nestedTooDeeply
deriving Repr, DecidableEq

def Complaint.text : Complaint → String
  | character c => "Unexpected character: " ++ characterText (some c) ++ "."
  | singleQuote =>
    "Unexpected single quote character ('), did you mean to use a double quote (\")?"
  | twoDots => "Unexpected '..', did you mean '...'?"
  | missingWholePart digits =>
    "Invalid number, expected digit before '.', did you mean '0." ++ digits ++ "'?"
  | digitAfterZero c =>
    "Invalid number, unexpected digit after 0: " ++ characterText (some c) ++ "."
  | expectedDigit found =>
    "Invalid number, expected digit but got: " ++ characterText found ++ "."
  | unterminatedString => "Unterminated string."
  | badEscape text => "Invalid character escape sequence: '" ++ text ++ "'."
  | badUnicodeEscape text => "Invalid Unicode escape sequence: '" ++ text ++ "'."
  | expected what found => "Expected " ++ what ++ ", found " ++ found ++ "."
  | unexpected found => "Unexpected " ++ found ++ "."
  | variableInConstant name => "Unexpected variable '$" ++ name ++ "' in constant value."
  | reservedName found => found ++ " is reserved and cannot be used for an enum value."
  | describedQuery =>
    "Unexpected description, descriptions are not supported on shorthand queries."
  | describedOther => "Unexpected description, only GraphQL definitions support descriptions."
  | nestedTooDeeply => "Document is nested too deeply. Parsing aborted."

/-- `offset` counts the characters before the fault. -/
structure Error where
  offset : Nat
  complaint : Complaint
deriving Repr, DecidableEq

def Error.message (e : Error) : String := "Syntax Error: " ++ e.complaint.text

/-- The line and column after a text, from one. A line ends with a line feed, a carriage return or
both. -/
def position (line column : Nat) : List Char → Nat × Nat
  | [] => (line, column)
  | '\r' :: '\n' :: rest => position (line + 1) 1 rest
  | c :: rest =>
    if c == '\r' || c == '\n' then position (line + 1) 1 rest else position line (column + 1) rest

def Error.location (text : String) (e : Error) : Nat × Nat :=
  position 1 1 (text.toList.take e.offset)

end CheckedModels.Sdl
