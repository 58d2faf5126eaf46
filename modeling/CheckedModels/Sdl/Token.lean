import CheckedModels.Sdl.Error

/-! The words of a schema text. -/
namespace CheckedModels.Sdl

inductive Punctuator where
  | bang
  | dollar
  | amp
  | openParen
  | closeParen
  | spread
  | colon
  | equals
  | at
  | openBracket
  | closeBracket
  | openBrace
  | pipe
  | closeBrace
deriving Repr, DecidableEq

def Punctuator.text : Punctuator → String
  | bang => "!"
  | dollar => "$"
  | amp => "&"
  | openParen => "("
  | closeParen => ")"
  | spread => "..."
  | colon => ":"
  | equals => "="
  | «at» => "@"
  | openBracket => "["
  | closeBracket => "]"
  | openBrace => "\x7b"
  | pipe => "|"
  | closeBrace => "\x7d"

def Punctuator.ofChar? : Char → Option Punctuator
  | '!' => some bang
  | '$' => some dollar
  | '&' => some amp
  | '(' => some openParen
  | ')' => some closeParen
  | ':' => some colon
  | '=' => some equals
  | '@' => some «at»
  | '[' => some openBracket
  | ']' => some closeBracket
  | '\x7b' => some openBrace
  | '|' => some pipe
  | '\x7d' => some closeBrace
  | _ => none

/-- Strings hold their decoded value. -/
inductive Lexeme where
  | punctuator (p : Punctuator)
  | name (value : String)
  | int (value : String)
  | float (value : String)
  | string (value : String)
  | blockString (value : String)
deriving Repr, DecidableEq

namespace Lexeme

def value? : Lexeme → Option String
  | punctuator _ => none
  | name v | int v | float v | string v | blockString v => some v

def describe : Lexeme → String
  | punctuator p => "'" ++ p.text ++ "'"
  | name v => "Name '" ++ v ++ "'"
  | int v => "Int '" ++ v ++ "'"
  | float v => "Float '" ++ v ++ "'"
  | string v => "String '" ++ v ++ "'"
  | blockString v => "BlockString '" ++ v ++ "'"

end Lexeme

structure Token where
  start : Nat
  lexeme : Lexeme
deriving Repr, DecidableEq

/-- The tokens of a text, which end with the text or where it cannot be read on. -/
inductive Tokens where
  | done (offset : Nat)
  | broken (error : Error)
  | next (token : Token) (rest : Tokens)
deriving Repr, DecidableEq

namespace Tokens

def size : Tokens → Nat
  | done _ | broken _ => 0
  | next _ rest => rest.size + 1

def offset : Tokens → Nat
  | done offset => offset
  | broken error => error.offset
  | next token _ => token.start

def head? : Tokens → Option Lexeme
  | next token _ => some token.lexeme
  | _ => none

def describe (ts : Tokens) : String :=
  match ts.head? with
  | some l => l.describe
  | none => "<EOF>"

end Tokens

end CheckedModels.Sdl
