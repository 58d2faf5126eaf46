import CheckedModels.Yaml.Failure

/-! Moving over the characters of a text. -/
namespace CheckedModels.Yaml

/-- Other characters may stand in a text only as escapes. -/
def isAllowed (c : Char) : Bool :=
  c == '\t' || c == '\n' || c == '\r' || ('\x20' ≤ c && c ≤ '\x7e') || c == '\x85' ||
    ('\xa0' ≤ c && c ≤ '\uD7FF') || ('\uE000' ≤ c && c ≤ '\uFFFD') || 0x10000 ≤ c.toNat

/-- Carriage returns are replaced before a text is read. -/
def isBreak (c : Char) : Bool :=
  c == '\n' || c == '\x85' || c == '\u2028' || c == '\u2029'

def isBlank (c : Char) : Bool := c == ' ' || c == '\t'

/-- Whether a character ends its line, or is missing because the text ends. -/
def endsLine : Option Char → Bool
  | some c => isBreak c
  | none => true

def endsField : Option Char → Bool
  | some c => c == ' ' || isBreak c
  | none => true

/-- As `endsField`, and the tab. -/
def endsWord : Option Char → Bool
  | some c => isBlank c || isBreak c
  | none => true

/-- What is left of a text, and where it begins. Lines and columns are counted from zero. -/
structure Cursor where
  rest : List Char
  index : Nat := 0
  line : Nat := 0
  column : Nat := 0

namespace Cursor

/-- A byte order mark takes no column. -/
def next (c : Cursor) : Cursor :=
  match c.rest with
  | [] => c
  | ch :: rest =>
    if isBreak ch then ⟨rest, c.index + 1, c.line + 1, 0⟩
    else ⟨rest, c.index + 1, c.line, if ch == '\uFEFF' then c.column else c.column + 1⟩

def skip (c : Cursor) : Nat → Cursor
  | 0 => c
  | n + 1 => skip c.next n

end Cursor

abbrev Scanner := StateT Cursor (Except Failure)

namespace Scanner

variable {α : Type}

def fail : Scanner α := throw .malformed

def require (condition : Bool) : Scanner Unit := if condition then pure () else fail

def rest : Scanner (List Char) := return (← get).rest

def peek : Scanner (Option Char) := return (← rest).head?

def peekAt (n : Nat) : Scanner (Option Char) := return (← rest)[n]?

def column : Scanner Nat := return (← get).column

def skip (n : Nat) : Scanner Unit := modify (·.skip n)

def takeWhile (p : Char → Bool) : Scanner (List Char) := do
  let taken := (← rest).takeWhile p
  skip taken.length
  return taken

def skipWhile (p : Char → Bool) : Scanner Unit := do
  let _ ← takeWhile p

def accept (c : Char) : Scanner Bool := do
  if (← peek) = some c then
    skip 1
    return true
  return false

def expect (c : Char) : Scanner Unit := do require (← accept c)

/-- Takes a line break, if one comes next. All but two kinds of break count as line feeds. -/
def lineBreak? : Scanner (Option Char) := do
  match ← peek with
  | some c =>
    if isBreak c then
      skip 1
      return some (if c == '\x85' then '\n' else c)
    else return none
  | none => return none

def skipComment : Scanner Unit := do
  skipWhile (· == ' ')
  if (← peek) = some '#' then skipWhile fun c => !isBreak c

/-- Takes the rest of a line, on which only a comment may stand. -/
def finishLine : Scanner Unit := do
  skipComment
  require (endsLine (← peek))
  let _ ← lineBreak?

/-- Whether three given characters that end a word come next. -/
def wordIs (mark : List Char) : Scanner Bool := do
  let rest ← rest
  return mark.isPrefixOf rest && endsWord (rest.drop mark.length).head?

def startMark : List Char := ['-', '-', '-']

def endMark : List Char := ['.', '.', '.']

/-- Whether a mark that ends a document comes next, at the start of a line. -/
def atDocumentMark : Scanner Bool := return (← wordIs startMark) || (← wordIs endMark)

/-- The text that a line break and the empty lines after it are folded into. -/
def folded (first : Char) (breaks : List Char) : List Char :=
  if first ≠ '\n' then first :: breaks else if breaks.isEmpty then [' '] else breaks

end Scanner

end CheckedModels.Yaml
