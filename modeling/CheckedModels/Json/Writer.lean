import CheckedModels.Decimal.Text
import CheckedModels.Json.Basic
import CheckedModels.Text.Quoted

/-! Writing a JSON document in ASCII, one item or member per line. -/
namespace CheckedModels.Json

def unitText (n : Nat) : String := "\\u" ++ Text.hexPadded 4 n

/-- Beyond ASCII every unit of sixteen bits is written by number: one for a code point of the first
plane and for a half of a surrogate pair, two for the others. -/
def escapedCode (n : Nat) : String :=
  if n = '"'.toNat then "\\\""
  else if n = '\\'.toNat then "\\\\"
  else if n = '\n'.toNat then "\\n"
  else if n = '\r'.toNat then "\\r"
  else if n = '\t'.toNat then "\\t"
  else if n = 8 then "\\b"
  else if n = 12 then "\\f"
  else if 0x20 ≤ n && n ≤ 0x7e then (Char.ofNat n).toString
  else if n < 0x10000 then unitText n
  else unitText (0xD800 + (n - 0x10000) / 0x400) ++ unitText (0xDC00 + (n - 0x10000) % 0x400)

def stringText (t : Text) : String :=
  "\"" ++ String.join (t.codes.map escapedCode) ++ "\""

def numberText (x : Float) : String :=
  match Decimal.decode x with
  | .nan => "NaN"
  | .infinite negative => if negative then "-Infinity" else "Infinity"
  | _ => Decimal.text x

def lineStart (depth : Nat) : String := "\n" ++ String.ofList (List.replicate (2 * depth) ' ')

mutual

/-- Two blanks of indentation for each level. -/
def indented (depth : Nat) : Json → String
  | .null => "null"
  | .bool b => if b then "true" else "false"
  | .int n => toString n
  | .float x => numberText x
  | .str s => stringText s
  | .arr [] => "[]"
  | .arr (item :: rest) =>
    "[" ++ lineStart (depth + 1) ++ indented (depth + 1) item ++
      indentedItems (depth + 1) rest ++ lineStart depth ++ "]"
  | .obj [] => "\x7b\x7d"
  | .obj ((key, value) :: rest) =>
    "\x7b" ++ lineStart (depth + 1) ++ stringText key ++ ": " ++ indented (depth + 1) value ++
      indentedMembers (depth + 1) rest ++ lineStart depth ++ "\x7d"

def indentedItems (depth : Nat) : List Json → String
  | [] => ""
  | item :: rest => "," ++ lineStart depth ++ indented depth item ++ indentedItems depth rest

def indentedMembers (depth : Nat) : List (Text × Json) → String
  | [] => ""
  | (key, value) :: rest =>
    "," ++ lineStart depth ++ stringText key ++ ": " ++ indented depth value ++
      indentedMembers depth rest

end

def write (j : Json) : String := indented 0 j

end CheckedModels.Json
