import CheckedModels.Yaml.Cursor

/-! Scalars without quotes. They may go on over several lines. -/
namespace CheckedModels.Yaml

open Scanner

/-- A colon ends a scalar if nothing of the scalar can follow it. -/
def endsKey (inFlow : Bool) (next : Option Char) : Bool :=
  endsWord next || (inFlow && next.any ",[]\x7b\x7d".toList.contains)

/-- The length of the part of a scalar that comes before the next blank. -/
def plainLength (inFlow : Bool) : List Char → Nat
  | [] => 0
  | c :: rest =>
    if endsWord (some c) || (c == ':' && endsKey inFlow rest.head?) ||
      (inFlow && ",?[]\x7b\x7d".toList.contains c) then 0
    else plainLength inFlow rest + 1

/-- Empty lines inside a scalar; none if a document mark follows them. The fuel is the text's
length. -/
def plainBreaks : Nat → Scanner (Option (List Char))
  | 0 => return some []
  | fuel + 1 => do
    if ← accept ' ' then plainBreaks fuel
    else
      match ← lineBreak? with
      | none => return some []
      | some b =>
        if ← atDocumentMark then return none
        return (← plainBreaks fuel).map (b :: ·)

/-- What stands between two parts of a scalar, and whether a line ends there. Nothing stands there
if the scalar cannot go on. -/
def plainGap : Scanner (List Char × Bool) := do
  let spaces ← takeWhile (· == ' ')
  match ← lineBreak? with
  | none => return (spaces, false)
  | some b =>
    if ← atDocumentMark then return ([], true)
    match ← plainBreaks (← rest).length with
    | some breaks => return (folded b breaks, true)
    | none => return ([], true)

/-- The rest of a scalar, and whether it ends at the start of a line. Outside of flow collections its
lines are indented. The fuel is the text's length. -/
def plainParts (inFlow : Bool) (indent : Nat) : Nat → Scanner (List Char × Bool)
  | 0 => return ([], false)
  | fuel + 1 => do
    let length := plainLength inFlow (← rest)
    let text := (← rest).take length
    skip length
    let (gap, newLine) ← plainGap
    let next ← peek
    if gap.isEmpty || next = some '#' || (!inFlow && (← column) < indent) ||
        plainLength inFlow (← rest) = 0 then
      return (text, newLine)
    let (more, newLine) ← plainParts inFlow indent fuel
    return (text ++ gap ++ more, newLine)

def plainScalar (inFlow : Bool) (indent : Nat) : Scanner (String × Bool) := do
  let (text, newLine) ← plainParts inFlow indent (← rest).length
  return (String.ofList text, newLine)

end CheckedModels.Yaml
