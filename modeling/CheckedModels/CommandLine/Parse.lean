import CheckedModels.CommandLine.Word

/-! Giving the words of a command line to flags and operands. -/
namespace CheckedModels.CommandLine

/-- An operand without a value is a second pair of dashes, which is not taken for a value. -/
structure Parsed where
  flags : List (Flag × Option String) := []
  operands : List (Option String) := []
  extras : List String := []
deriving Repr, DecidableEq

namespace Parsed

def has (p : Parsed) (flag : Flag) : Bool := p.flags.any fun e => e.1 = flag

def value? (p : Parsed) (flag : Flag) : Option String :=
  (p.flags.reverse.find? fun e => e.1 = flag).bind Prod.snd

def addExtras (p : Parsed) (extras : List String) : Parsed := { p with extras := p.extras ++ extras }

end Parsed

def skipSeparators : List Word → List Word
  | .separator :: rest => skipSeparators rest
  | words => words

theorem length_skipSeparators (words : List Word) :
    (skipSeparators words).length ≤ words.length := by
  fun_induction skipSeparators words <;> simp_all
  omega

namespace Grammar

/-- The flags that share a word: letters may follow a flag of one letter that takes no value. -/
def cluster (g : Grammar) (name : String) (flag : Flag) (value : List Char) :
    Except Stop (List (Flag × Option String)) :=
  if flag.takesValue then .ok [(flag, some (String.ofList value))]
  else
    let ignored := Stop.misuse g (.ignoredValue (g.names flag) (String.ofList value))
    match value with
    | [] => .error ignored
    | c :: rest =>
      let next := String.ofList ['-', c]
      match if name.startsWith "--" then none else g.flag? next, rest with
      | none, _ => .error ignored
      | some follower, [] => .ok [(flag, none), (follower, none)]
      | some follower, d :: rest => do
        return (flag, none) :: (← cluster g next follower (d :: rest))
termination_by value.length

/-- Help is given as soon as it is asked for. -/
def addFlags (g : Grammar) (p : Parsed) (flags : List (Flag × Option String)) :
    Except Stop Parsed :=
  if flags.any fun e => e.1 = .help then .error (.help g)
  else .ok { p with flags := p.flags ++ flags }

def nextOperand? : List Word → Option (Option String × List Word)
  | .separator :: .operand text :: rest => some (some text, skipSeparators rest)
  | .operand text :: rest => some (if text = "--" then none else some text, skipSeparators rest)
  | _ => none

theorem length_nextOperand? {words rest : List Word} {value : Option String}
    (h : nextOperand? words = some (value, rest)) : rest.length < words.length := by
  unfold nextOperand? at h
  split at h
  · simp only [Option.some.injEq, Prod.mk.injEq] at h
    obtain ⟨-, rfl⟩ := h
    have := length_skipSeparators ‹_›
    simp
    omega
  · simp only [Option.some.injEq, Prod.mk.injEq] at h
    obtain ⟨-, rfl⟩ := h
    have := length_skipSeparators ‹_›
    simp
    omega
  · simp at h

/-- Takes words one after the other, flags and operands in any order. -/
def consume (g : Grammar) (p : Parsed) (words : List Word) : Except Stop Parsed :=
  match words with
  | [] => .ok p
  | .unknownFlag text :: rest => consume g (p.addExtras [text]) rest
  | .flag _ name flag (some attached) :: rest => do
    let p ← g.addFlags p (← g.cluster name flag attached.toList)
    consume g p rest
  | .flag _ _ flag none :: rest =>
    if flag.takesValue then
      match rest with
      | .operand text :: rest => do
        let p ← g.addFlags p [(flag, some text)]
        consume g p rest
      | _ => .error (.misuse g (.noValue (g.names flag)))
    else do
      let p ← g.addFlags p [(flag, none)]
      consume g p rest
  | word :: rest =>
    if p.operands.length < g.operands.length then
      match _h : nextOperand? (word :: rest) with
      | some (value, more) =>
        if g.takesRest && p.operands.length + 1 = g.operands.length then
          .ok { p with operands := p.operands ++ (word :: rest).map fun w => some w.text }
        else consume g { p with operands := p.operands ++ [value] } more
      | none => consume g (p.addExtras [word.text]) rest
    else consume g (p.addExtras [word.text]) rest
termination_by words.length
decreasing_by
  · simp
  · simp
  · simp only [List.length_cons]
    omega
  · simp
  · simpa using length_nextOperand? _h
  · simp
  · simp

def parse (g : Grammar) (arguments : List String) : Except Stop Parsed := do
  let p ← g.consume {} (← g.words arguments)
  let missing := g.operands.drop p.operands.length
  if g.required && !missing.isEmpty then throw (.misuse g (.missing missing))
  return p

end Grammar

end CheckedModels.CommandLine
