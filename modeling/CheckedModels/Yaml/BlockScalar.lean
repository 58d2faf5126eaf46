import CheckedModels.Yaml.Cursor

/-! Scalars that are whole lines, told by their indentation. -/
namespace CheckedModels.Yaml

open Scanner

/-- What becomes of the line breaks at the end of a scalar. -/
inductive Chomping where
  | clip
  | strip
  | keep
deriving Repr, DecidableEq

structure BlockHeader where
  chomping : Chomping := .clip
  indent : Option Nat := none
deriving Repr, DecidableEq

def chomping? : Scanner (Option Chomping) := do
  if ← accept '+' then return some .keep
  if ← accept '-' then return some .strip
  return none

def indentDigit? : Scanner (Option Nat) := do
  let some c ← peek | return none
  if c.isDigit then
    require (c != '0')
    skip 1
    return some (c.toNat - '0'.toNat)
  return none

/-- The two indicators come in any order, and a comment may follow them. -/
def BlockHeader.scan : Scanner BlockHeader := do
  let before ← chomping?
  let indent ← indentDigit?
  let after ← if before.isNone && indent.isSome then chomping? else pure none
  require (endsField (← peek))
  finishLine
  return ⟨((before.or after).getD .clip), indent⟩

/-- The line breaks before the first line with content, and the furthest column that spaces reach.
The fuel is the text's length. -/
def firstIndent (furthest : Nat) : Nat → Scanner (List Char × Nat)
  | 0 => return ([], furthest)
  | fuel + 1 => do
    if ← accept ' ' then firstIndent (max furthest (← column)) fuel
    else
      match ← lineBreak? with
      | none => return ([], furthest)
      | some b => do
        let (breaks, furthest) ← firstIndent furthest fuel
        return (b :: breaks, furthest)

def skipIndent (indent : Nat) : Scanner Unit := do
  let spaces := ((← rest).takeWhile (· == ' ')).length
  skip (min spaces (indent - (← column)))

/-- Empty lines, and the indentation of the line after them. The fuel is the text's length. -/
def blockBreaks (indent : Nat) : Nat → Scanner (List Char)
  | 0 => return []
  | fuel + 1 => do
    skipIndent indent
    match ← lineBreak? with
    | none => return []
    | some b => return b :: (← blockBreaks indent fuel)

/-- The lines of a scalar. `pending` is what stands before the next line if there is one. Gives the
text, the break that ends the last line and the empty lines after it. The fuel is the text's
length. -/
def blockLines (fold : Bool) (indent : Nat) (pending : List Char) :
    Nat → Scanner (List Char × List Char × List Char)
  | 0 => return ([], [], [])
  | fuel + 1 => do
    let plain := !(← peek).any isBlank
    let text ← takeWhile fun c => !isBreak c
    let ending := (← lineBreak?).toList
    let breaks ← blockBreaks indent ((← rest).length + 1)
    let next ← peek
    if (← column) = indent && next.isSome then
      let join :=
        if fold && ending == ['\n'] && plain && !next.any isBlank then
          if breaks.isEmpty then [' '] else []
        else ending
      let (more, last) ← blockLines fold indent (join ++ breaks) fuel
      return (pending ++ text ++ more, last)
    return (pending ++ text, ending, breaks)

/-- A scalar whose lines are indented by at least one column, or by more if its parent asks for
it. -/
def blockScalar (fold : Bool) (asked : Nat) : Scanner String := do
  skip 1
  let header ← BlockHeader.scan
  let least := max asked 1
  let fuel := (← rest).length + 1
  let (indent, breaks) ← match header.indent with
    | some n => do
      let indent := least + n - 1
      pure (indent, ← blockBreaks indent fuel)
    | none => do
      let (breaks, furthest) ← firstIndent 0 fuel
      pure (max least furthest, breaks)
  let (text, ending, trailing) ←
    if (← column) = indent && (← peek).isSome then blockLines fold indent breaks fuel
    else pure ([], [], breaks)
  return String.ofList <| text ++ match header.chomping with
    | .strip => []
    | .clip => ending
    | .keep => ending ++ trailing

end CheckedModels.Yaml
