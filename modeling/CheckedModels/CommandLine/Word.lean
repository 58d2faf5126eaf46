import CheckedModels.CommandLine.Grammar
import CheckedModels.Text.DecimalDigit

/-! The words of a command line, told apart by how they look. -/
namespace CheckedModels.CommandLine

/-- A value may be attached to a flag in one word. -/
inductive Word where
  | operand (text : String)
  | separator
  | flag (text name : String) (flag : Flag) (attached : Option String)
  | unknownFlag (text : String)
deriving Repr, DecidableEq

namespace Word

def text : Word → String
  | operand text | flag text _ _ _ | unknownFlag text => text
  | separator => "--"

end Word

def splitEquals (text : String) : String × Option String :=
  let name := text.toList.takeWhile (· ≠ '=')
  match text.toList.drop name.length with
  | _ :: value => (String.ofList name, some (String.ofList value))
  | [] => (String.ofList name, none)

def isDigit (c : Char) : Bool := (Text.decimalDigit? c.toNat).isSome

/-- A negative number is no flag. A line feed may end it. -/
def isNegativeNumber (text : String) : Bool :=
  let cs := text.toList
  match if cs.getLast? = some '\n' then cs.dropLast else cs with
  | '-' :: size =>
    match size.dropWhile isDigit with
    | [] => !size.isEmpty
    | '.' :: places => !places.isEmpty && places.all isDigit
    | _ => false
  | _ => false

namespace Grammar

/-- The flags that a shortened name can stand for. A value may follow a name of one letter at
once. -/
def candidates (g : Grammar) (text : String) : List Word :=
  if text.startsWith "--" then
    let (start, attached) := splitEquals text
    (g.flags.filter fun e => e.1.startsWith start).map fun e => .flag text e.1 e.2 attached
  else
    let short := String.ofList (text.toList.take 2)
    g.flags.filterMap fun e =>
      if e.1 == short then
        some (.flag text e.1 e.2 (some (String.ofList (text.toList.drop 2))))
      else if e.1.startsWith text then some (.flag text e.1 e.2 none)
      else none

def flagNames : List Word → List String :=
  List.filterMap fun
    | .flag _ name _ _ => some name
    | _ => none

/-- A word that looks like a flag and is none counts as an operand if it holds a space. -/
def word (g : Grammar) (text : String) : Except Stop Word :=
  if !text.startsWith "-" || text == "-" then .ok (.operand text)
  else
    match g.flag? text, splitEquals text with
    | some flag, _ => .ok (.flag text text flag none)
    | none, (name, attached) =>
      match attached, g.flag? name with
      | some attached, some flag => .ok (.flag text name flag (some attached))
      | _, _ =>
        match g.candidates text with
        | [only] => .ok only
        | [] =>
          .ok (if isNegativeNumber text || text.contains ' ' then .operand text
            else .unknownFlag text)
        | several => .error (.misuse g (.ambiguous text (flagNames several)))

/-- After two dashes alone there are only operands. -/
def words (g : Grammar) : List String → Except Stop (List Word)
  | [] => .ok []
  | text :: rest => do
    if text == "--" then return .separator :: rest.map .operand
    let first ← g.word text
    return first :: (← g.words rest)

end Grammar

end CheckedModels.CommandLine
