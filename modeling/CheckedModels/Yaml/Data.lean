import CheckedModels.Value.Key
import CheckedModels.Value.Literal
import CheckedModels.Yaml.Moment

/-! The data that a YAML document stands for. -/
namespace CheckedModels.Yaml

/-- Data without parts, which may be a key. The double that is no number comes from the node that
writes it out, or it is the one that has a name. -/
inductive Atom where
  | scalar (s : Scalar)
  | notNumber (source : Option Nat)
  | moment (m : Moment)
  | bytes (content : List Nat)
deriving Inhabited

inductive Data where
  | atom (a : Atom)
  | list (items : List Data)
  | dict (entries : List (Atom × Data))
  | set (members : List Atom)
deriving Inhabited

def byteText (quote : Char) (n : Nat) : String :=
  let c := Char.ofNat n
  if c == quote || c == '\\' then String.ofList ['\\', c]
  else if c == '\n' then "\\n"
  else if c == '\r' then "\\r"
  else if c == '\t' then "\\t"
  else if 0x20 ≤ n && n < 0x7f then c.toString
  else "\\x" ++ Text.hexPadded 2 n

def bytesText (content : List Nat) : String :=
  let quote := Text.quoteFor content
  "b" ++ quote.toString ++ String.join (content.map (byteText quote)) ++ quote.toString

namespace Atom

/-- Text and moments stand for themselves, everything else for its literal. An integer may be too
long for that. -/
def display? : Atom → Option Text
  | scalar (.int n) => (Decimal.integerText? n).map .whole
  | scalar s => some (Value.scalar s).display
  | notNumber _ => some "nan"
  | moment m => some m.text
  | bytes content => some (bytesText content)

/-- Doubles that are no numbers are never equal, but each is the same as itself. -/
def sameKey : Atom → Atom → Bool
  | scalar a, scalar b => a.sameKey b
  | notNumber a, notNumber b => a == b
  | moment a, moment b => a.same b
  | bytes a, bytes b => a == b
  | _, _ => false

end Atom

namespace Data

abbrev null : Data := atom (.scalar .null)

mutual

def ofJson : Json → Data
  | .null => null
  | .bool b => atom (.scalar (.bool b))
  | .int n => atom (.scalar (.int n))
  | .float x => atom (.scalar (.float x))
  | .str s => atom (.scalar (.str s))
  | .arr items => list (ofJsonItems items)
  | .obj members => dict (ofJsonMembers members)

def ofJsonItems : List Json → List Data
  | [] => []
  | j :: rest => ofJson j :: ofJsonItems rest

def ofJsonMembers : List (Text × Json) → List (Atom × Data)
  | [] => []
  | (key, j) :: rest => (.scalar (.str key), ofJson j) :: ofJsonMembers rest

end

/-- Data that stands for nothing: null, false, zero and everything empty. -/
def isBlank : Data → Bool
  | atom (.scalar .null) => true
  | atom (.scalar (.bool b)) => !b
  | atom (.scalar (.int n)) => n == 0
  | atom (.scalar (.float x)) => x == 0.0
  | atom (.scalar (.str s)) => s.isEmpty
  | atom (.notNumber _) | atom (.moment _) => false
  | atom (.bytes content) => content.isEmpty
  | list items => items.isEmpty
  | dict entries => entries.isEmpty
  | set members => members.isEmpty

end Data

end CheckedModels.Yaml
