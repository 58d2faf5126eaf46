import CheckedModels.Text.Basic
import CheckedModels.Text.Printable

/-! Text written as a quoted literal on one line of printable characters. -/
namespace CheckedModels.Text

def hexPadded (width n : Nat) : String :=
  let digits := String.ofList (Nat.toDigits 16 n)
  String.ofList (List.replicate (width - digits.length) '0') ++ digits

/-- Single quotes enclose the text unless it holds one and no double quote. -/
def quoteFor (codes : List Nat) : Char :=
  if codes.contains '\''.toNat && !codes.contains '"'.toNat then '"' else '\''

/-- A character that is not printable is written by its number in the shortest of three widths. -/
def quotedChar (quote c : Char) : String :=
  if c == quote || c == '\\' then String.ofList ['\\', c]
  else if c == '\n' then "\\n"
  else if c == '\r' then "\\r"
  else if c == '\t' then "\\t"
  else if isPrintable c then c.toString
  else if c.toNat < 0x100 then "\\x" ++ hexPadded 2 c.toNat
  else if c.toNat < 0x10000 then "\\u" ++ hexPadded 4 c.toNat
  else "\\U" ++ hexPadded 8 c.toNat

/-- A half of a surrogate pair is written by its number too. -/
def quotedCode (quote : Char) (n : Nat) : String :=
  if isSurrogate n then "\\u" ++ hexPadded 4 n else quotedChar quote (Char.ofNat n)

def quotedCodes (codes : List Nat) : String :=
  let quote := quoteFor codes
  quote.toString ++ String.join (codes.map (quotedCode quote)) ++ quote.toString

def quoted (t : Text) : String := quotedCodes t.codes

/-- The text with its halves of surrogate pairs written by number. -/
def visible : Text → String
  | whole s => s
  | broken codes _ => String.join (codes.map fun n =>
      if isSurrogate n then "\\u" ++ hexPadded 4 n else (Char.ofNat n).toString)

end CheckedModels.Text
