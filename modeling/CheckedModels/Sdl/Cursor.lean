import CheckedModels.Sdl.Token

/-! Moving over tokens. The current token is always one that could be read: an unreadable one stops
the move onto it. -/
namespace CheckedModels.Sdl

abbrev Parser := StateT Tokens (Except Error)

namespace Parser

variable {α : Type}

def failAt (offset : Nat) (complaint : Complaint) : Parser α := throw ⟨offset, complaint⟩

def here : Parser Nat := return (← get).offset

def peek : Parser (Option Lexeme) := return (← get).head?

def unexpected : Parser α := do
  let ts ← get
  failAt ts.offset (.unexpected ts.describe)

def readable : Tokens → Except Error Tokens
  | .broken e => throw e
  | ts => return ts

def following : Parser Tokens := do
  match ← get with
  | .next _ rest => readable rest
  | ts => return ts

def advance : Parser Unit := do set (← following)

def nextIs (lexeme : Lexeme) : Parser Bool := return (← peek) = some lexeme

def accept (lexeme : Lexeme) : Parser Bool := do
  if ← nextIs lexeme then
    advance
    return true
  return false

def expected (what : String) : Parser α := do
  let ts ← get
  failAt ts.offset (.expected what ts.describe)

def expect (p : Punctuator) : Parser Unit := do
  if !(← accept (.punctuator p)) then expected ("'" ++ p.text ++ "'")

def acceptKeyword (word : String) : Parser Bool := accept (.name word)

def expectKeyword (word : String) : Parser Unit := do
  if !(← acceptKeyword word) then expected ("'" ++ word ++ "'")

def name : Parser String := do
  match ← peek with
  | some (.name value) =>
    advance
    return value
  | _ => expected "Name"

/-- Items up to a closing punctuator, at least one. Each item takes a token. -/
def itemsUntil (close : Punctuator) (item : Parser α) (ts : Tokens) :
    Except Error (List α × Tokens) := do
  let (x, rest) ← item.run ts
  let (closed, rest) ← (accept (.punctuator close)).run rest
  if closed then return ([x], rest)
  if rest.size < ts.size then
    let (xs, rest) ← itemsUntil close item rest
    return (x :: xs, rest)
  else return ([x], rest)
termination_by ts.size

def someBetween (start close : Punctuator) (item : Parser α) : Parser (List α) := do
  expect start
  itemsUntil close item

def anyBetween (start close : Punctuator) (item : Parser α) : Parser (List α) := do
  expect start
  if ← accept (.punctuator close) then return []
  itemsUntil close item

/-- At least one item between punctuators, or nothing at all. -/
def optionalBetween (start close : Punctuator) (item : Parser α) : Parser (List α) := do
  if ← accept (.punctuator start) then itemsUntil close item
  else return []

def separated (mark : Punctuator) (item : Parser α) (ts : Tokens) :
    Except Error (List α × Tokens) := do
  let (x, rest) ← item.run ts
  let (more, rest) ← (accept (.punctuator mark)).run rest
  if !more then return ([x], rest)
  if rest.size < ts.size then
    let (xs, rest) ← separated mark item rest
    return (x :: xs, rest)
  else return ([x], rest)
termination_by ts.size

def delimited (mark : Punctuator) (item : Parser α) : Parser (List α) := do
  let _ ← accept (.punctuator mark)
  separated mark item

end Parser

end CheckedModels.Sdl
