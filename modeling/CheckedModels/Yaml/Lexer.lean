import CheckedModels.Text.Lines
import CheckedModels.Yaml.BlockScalar
import CheckedModels.Yaml.Mark
import CheckedModels.Yaml.PlainScalar
import CheckedModels.Yaml.QuotedScalar

/-! From characters to tokens. Indentation becomes tokens, and a key is recognised by the colon after
it. -/
namespace CheckedModels.Yaml

/-- Where a key may have begun: before the token of a given number. A key is required where a line
of a block mapping begins. -/
structure PossibleKey where
  number : Nat
  required : Bool
  index : Nat
  line : Nat
  column : Nat

/-- Tokens come last first. Each open flow collection keeps its own possible key, the innermost
first. -/
structure Lexer where
  cursor : Cursor
  tokens : List Token := []
  count : Nat := 0
  indents : List Nat := []
  key : Option PossibleKey := none
  outerKeys : List (Option PossibleKey) := []
  keyAllowed : Bool := true

abbrev Lexing := StateT Lexer (Except Failure)

namespace Lexing

variable {α : Type}

def fail : Lexing α := throw .malformed

def require (condition : Bool) : Lexing Unit := if condition then pure () else fail

def scan (s : Scanner α) : Lexing α := do
  let (a, cursor) ← s.run (← get).cursor
  modify ({ · with cursor })
  return a

def column : Lexing Nat := return (← get).cursor.column

def inFlow : Lexing Bool := return !(← get).outerKeys.isEmpty

/-- The column that the next line of a nested collection has to reach. -/
def nestedIndent : Lexing Nat := return (((← get).indents.head?).map (· + 1)).getD 0

def push (t : Token) : Lexing Unit :=
  modify fun s => { s with tokens := t :: s.tokens, count := s.count + 1 }

def insert (number : Nat) (t : Token) : Lexing Unit :=
  modify fun s =>
    { s with tokens := s.tokens.insertIdx (s.count - number) t, count := s.count + 1 }

def allowKey (allowed : Bool) : Lexing Unit := modify ({ · with keyAllowed := allowed })

/-- Blanks, comments and line breaks. The fuel is the text's length. -/
def skipToToken : Nat → Lexing Unit
  | 0 => return
  | fuel + 1 => do
    scan Scanner.skipComment
    if (← scan Scanner.lineBreak?).isSome then
      if !(← inFlow) then allowKey true
      skipToToken fuel

/-- A possible key ends with its line, and after 1024 characters. -/
def PossibleKey.lasting (k : PossibleKey) : Lexing (Option PossibleKey) := do
  let here := (← get).cursor
  if k.line ≠ here.line || k.index + 1024 < here.index then
    require !k.required
    return none
  return some k

def dropStale : Option PossibleKey → Lexing (Option PossibleKey)
  | some k => PossibleKey.lasting k
  | none => return none

def dropStaleKeys : Lexing Unit := do
  let s ← get
  let outerKeys ← s.outerKeys.mapM dropStale
  let key ← dropStale s.key
  set { s with key, outerKeys }

def forgetKey : Lexing Unit := do
  if let some k := (← get).key then require !k.required
  modify ({ · with key := none })

def rememberKey : Lexing Unit := do
  let s ← get
  if s.keyAllowed then
    forgetKey
    let required := s.outerKeys.isEmpty && s.indents.head? = some s.cursor.column
    let key := ⟨s.count, required, s.cursor.index, s.cursor.line, s.cursor.column⟩
    modify ({ · with key := some key })

/-- Ends the block collections that are indented further than a column. -/
def unwind (column : Nat) : List Nat → Lexing Unit
  | [] => modify ({ · with indents := [] })
  | indent :: outer => do
    if column < indent then
      push .blockEnd
      unwind column outer
    else modify ({ · with indents := indent :: outer })

def unwindTo (column : Nat) : Lexing Unit := do
  if !(← inFlow) then unwind column (← get).indents

def unwindAll : Lexing Unit := do
  if !(← inFlow) then
    let s ← get
    s.indents.forM fun _ => push .blockEnd
    modify ({ · with indents := [] })

/-- Whether a column is further than the indentation, which then becomes that column. -/
def indent (column : Nat) : Lexing Bool := do
  let s ← get
  if s.indents.head?.all (· < column) then
    set { s with indents := column :: s.indents }
    return true
  return false

def pushOne (t : Token) : Lexing Unit := do
  scan (Scanner.skip 1)
  push t

def directiveToken : Lexing Unit := do
  unwindAll
  forgetKey
  allowKey false
  push (.directive (← scan directive))

def documentToken (t : Token) : Lexing Unit := do
  unwindAll
  forgetKey
  allowKey false
  scan (Scanner.skip 3)
  push t

/-- How many flow collections may be open at once: more than are ever taken up, even if a key is long
in coming. -/
def maxOpen : Nat := 2048

def flowStart (t : Token) : Lexing Unit := do
  if maxOpen < (← get).outerKeys.length then throw .tooDeep
  rememberKey
  modify fun s => { s with key := none, outerKeys := s.key :: s.outerKeys }
  allowKey true
  pushOne t

def flowEnd (t : Token) : Lexing Unit := do
  forgetKey
  let outer :: more := (← get).outerKeys | fail
  modify ({ · with key := outer, outerKeys := more })
  allowKey false
  pushOne t

def flowEntry : Lexing Unit := do
  allowKey true
  forgetKey
  pushOne .flowEntry

/-- Begins a block collection at the current column, where a key could begin too. -/
def blockStart (t : Token) : Lexing Unit := do
  if !(← inFlow) then
    require (← get).keyAllowed
    if ← indent (← column) then push t

def blockEntry : Lexing Unit := do
  blockStart .blockSequenceStart
  allowKey true
  forgetKey
  pushOne .blockEntry

def explicitKey : Lexing Unit := do
  blockStart .blockMappingStart
  allowKey !(← inFlow)
  forgetKey
  pushOne .key

/-- A colon makes a key of what was remembered, unless the key was announced. -/
def value : Lexing Unit := do
  match (← get).key with
  | some k => do
    modify ({ · with key := none })
    insert k.number .key
    if !(← inFlow) then
      if ← indent k.column then insert k.number .blockMappingStart
    allowKey false
  | none => do
    blockStart .blockMappingStart
    allowKey !(← inFlow)
    forgetKey
  pushOne .value

def keyToken (s : Scanner Token) : Lexing Unit := do
  rememberKey
  allowKey false
  push (← scan s)

def block (fold : Bool) : Lexing Unit := do
  allowKey true
  forgetKey
  let indent ← nestedIndent
  push (.scalar (← scan (blockScalar fold indent)) false)

def plain : Lexing Unit := do
  rememberKey
  let inFlow ← inFlow
  let indent ← nestedIndent
  let (text, newLine) ← scan (plainScalar inFlow indent)
  allowKey newLine
  push (.scalar text true)

/-- The characters that no plain scalar begins with. -/
def indicators : List Char := "-?:,[]\x7b\x7d#&*!|>'\"%@\x60".toList

def beginsPlain (c : Char) (next : Option Char) (inFlow : Bool) : Bool :=
  !indicators.contains c && !endsWord (some c) ||
    (!endsWord next && (c == '-' || (!inFlow && (c == '?' || c == ':'))))

/-- Reads one token and those that it implies. -/
def token (c : Char) : Lexing Unit := do
  let inFlow ← inFlow
  let next ← scan (Scanner.peekAt 1)
  let atStart := (← column) = 0
  let alone := endsWord next
  if c == '%' && atStart then directiveToken
  else if atStart && (← scan (Scanner.wordIs Scanner.startMark)) then documentToken .documentStart
  else if atStart && (← scan (Scanner.wordIs Scanner.endMark)) then documentToken .documentEnd
  else if c == '[' then flowStart .flowSequenceStart
  else if c == '\x7b' then flowStart .flowMappingStart
  else if c == ']' then flowEnd .flowSequenceEnd
  else if c == '\x7d' then flowEnd .flowMappingEnd
  else if c == ',' then flowEntry
  else if c == '-' && alone then blockEntry
  else if c == '?' && (inFlow || alone) then explicitKey
  else if c == ':' && (inFlow || alone) then value
  else if c == '*' then keyToken (return .reference (← anchorName))
  else if c == '&' then keyToken (return .anchor (← anchorName))
  else if c == '!' then keyToken (return .tag (← tagMark))
  else if c == '|' && !inFlow then block false
  else if c == '>' && !inFlow then block true
  else if c == '\'' || c == '"' then keyToken (return .scalar (← quotedScalar c) false)
  else if beginsPlain c next inFlow then plain
  else fail

/-- Reads on, unless the text ends here. -/
def step : Lexing Bool := do
  skipToToken ((← get).cursor.rest.length + 1)
  dropStaleKeys
  unwindTo (← column)
  match ← scan Scanner.peek with
  | some c =>
    token c
    return true
  | none =>
    unwindAll
    forgetKey
    return false

end Lexing

/-- The tokens of a text, and why there are no more, unless the text ends there. -/
structure TokenStream where
  tokens : List Token
  failure : Option Failure := none

namespace Lexer

/-- Where a key began that a colon may still follow. -/
def waiting (s : Lexer) : List Nat :=
  let fresh (k : PossibleKey) : Bool :=
    k.line = s.cursor.line && s.cursor.index ≤ k.index + 1024
  ((s.key :: s.outerKeys).filterMap (Option.filter fresh ·)).map PossibleKey.number

/-- The tokens that nothing can come before any more. -/
def settled (s : Lexer) : List Token := s.tokens.reverse.take (s.waiting.foldl min s.count)

/-- Reads to the end of the text. Each token is at least one character, so the text's length is fuel
enough. -/
def stream (s : Lexer) : Nat → TokenStream
  | 0 => ⟨s.settled, some .malformed⟩
  | fuel + 1 =>
    match Lexing.step.run s with
    | .ok (true, s) => stream s fuel
    | .ok (false, s) => ⟨s.tokens.reverse, none⟩
    | .error f => ⟨s.settled, some f⟩

end Lexer

/-- The tokens of a text, which may begin with a byte order mark. -/
def TokenStream.ofText (text : String) : TokenStream :=
  let chars := Text.unixLines text.toList
  if !chars.all isAllowed then ⟨[], some .malformed⟩
  else
    let start : Cursor := ⟨chars, 0, 0, 0⟩
    let start := if chars.head? = some '\uFEFF' then start.next else start
    Lexer.stream { cursor := start } (chars.length + 1)

end CheckedModels.Yaml
