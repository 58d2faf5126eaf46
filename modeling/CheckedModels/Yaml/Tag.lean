import CheckedModels.Text.Escape
import CheckedModels.Yaml.Moment

/-! Which kind of data a node stands for. -/
namespace CheckedModels.Yaml

inductive Tag where
  | null
  | bool
  | int
  | float
  | binary
  | moment
  | str
  | seq
  | map
  | set
  | pairs
  | merge
  | self
  | unknown
deriving Repr, DecidableEq, Inhabited

namespace Tag

def standard : String := "tag:yaml.org,2002:"

/-- The tag of a full name. Two tags stand for lists of pairs. -/
def ofName (name : String) : Tag :=
  if name.startsWith standard then
    match (name.drop standard.length).toString with
    | "null" => null
    | "bool" => bool
    | "int" => int
    | "float" => float
    | "binary" => binary
    | "timestamp" => moment
    | "str" => str
    | "seq" => seq
    | "map" => map
    | "set" => set
    | "omap" | "pairs" => pairs
    | "merge" => merge
    | "value" => self
    | _ => unknown
  else unknown

def truthWords : List String := ["yes", "true", "on"]

def falseWords : List String := ["no", "false", "off"]

/-- Words are written small, with a capital, or large. -/
def isSpelling (word text : String) : Bool :=
  text == word || text == word.capitalize || text == word.toUpper

def isDigitOrBar (c : Char) : Bool := c.isDigit || c == '_'

def dropSign : List Char → List Char
  | c :: rest => if c == '+' || c == '-' then rest else c :: rest
  | [] => []

def isSixtieth : List Char → Bool
  | [d] => d.isDigit
  | [t, d] => '0' ≤ t && t ≤ '5' && d.isDigit
  | _ => false

def isSexagesimal (leading : Char → Bool) (cs : List Char) : Bool :=
  match cs.splitOn ':' with
  | whole :: parts =>
    whole.head?.any leading && whole.all isDigitOrBar && !parts.isEmpty && parts.all isSixtieth
  | [] => false

def isFrom1 (c : Char) : Bool := c.isDigit && c != '0'

def isInt (cs : List Char) : Bool :=
  match dropSign cs with
  | '0' :: 'b' :: bits => !bits.isEmpty && bits.all fun c => c == '0' || c == '1' || c == '_'
  | '0' :: 'x' :: digits =>
    !digits.isEmpty && digits.all fun c => (Text.hexDigit? c).isSome || c == '_'
  | '0' :: digits => digits.all fun c => ('0' ≤ c && c ≤ '7') || c == '_'
  | c :: rest => (isFrom1 c && rest.all isDigitOrBar) || isSexagesimal isFrom1 (c :: rest)
  | [] => false

def isExponent : List Char → Bool
  | [] => true
  | mark :: sign :: digits =>
    (mark == 'e' || mark == 'E') && (sign == '+' || sign == '-') && !digits.isEmpty &&
      digits.all Char.isDigit
  | _ => false

def isDecimal (cs : List Char) : Bool :=
  match cs.dropWhile isDigitOrBar with
  | '.' :: rest => cs.head?.any Char.isDigit && isExponent (rest.dropWhile isDigitOrBar)
  | _ => false

def isSixtyDecimal (cs : List Char) : Bool :=
  match cs.splitOn '.' with
  | [whole, places] => isSexagesimal Char.isDigit whole && places.all isDigitOrBar
  | _ => false

def isFloat (cs : List Char) : Bool :=
  let size := dropSign cs
  isDecimal size || isSixtyDecimal size ||
    [".inf", ".Inf", ".INF"].any (·.toList == size) ||
    [".nan", ".NaN", ".NAN"].any (·.toList == cs) ||
    match cs with
    | '.' :: d :: rest => d.isDigit && isExponent (rest.dropWhile isDigitOrBar)
    | _ => false

/-- A line feed at the end of a text does not change what it looks like. -/
def stem (cs : List Char) : List Char := if cs.getLast? = some '\n' then cs.dropLast else cs

def ofPlain (text : String) : Tag :=
  let cs := stem text.toList
  let word := String.ofList cs
  if text.isEmpty then null
  else if cs.isEmpty then str
  else if word == "~" || isSpelling "null" word then null
  else if (truthWords ++ falseWords).any (isSpelling · word) then bool
  else if isInt cs then int
  else if isFloat cs then float
  else if (Moment.ofChars? cs).any Moment.isPlain then moment
  else if word == "<<" then merge
  else if word == "=" then self
  else if word == "!" || word == "&" || word == "*" then unknown
  else str

end Tag

end CheckedModels.Yaml
