import CheckedModels.Conversion.Issue

/-! What comes of validating a value. -/
namespace CheckedModels

/-- A definition that cannot be used, whatever the value. -/
inductive Fault where
  | unsealed (model : String)
  | notRecord
  | unregistered (key : String)
  | endless
  | nullInName
deriving Repr, DecidableEq

inductive Failure where
  | rejected (issues : List Issue)
  | broken (fault : Fault)
deriving Repr

abbrev Outcome := Except Failure Value

namespace Outcome

def reject {α : Type} (cause : Cause) : Except Failure α := .error (.rejected [.plain [] cause])

def broken {α : Type} (fault : Fault) : Except Failure α := .error (.broken fault)

/-- All parts, or the issues of all parts. A fault wins over issues. -/
def gather : List (Step × Outcome) → Except Failure (List Value)
  | [] => .ok []
  | (step, part) :: rest =>
    match part, gather rest with
    | .error (.broken fault), _ => .error (.broken fault)
    | .ok v, .ok vs => .ok (v :: vs)
    | .ok _, .error e => .error e
    | .error (.rejected _), .error (.broken fault) => .error (.broken fault)
    | .error (.rejected issues), .error (.rejected more) =>
      .error (.rejected (issues.map (Issue.under step) ++ more))
    | .error (.rejected issues), .ok _ => .error (.rejected (issues.map (Issue.under step)))

/-- What the first accepting part makes, or the last resort. A fault ends the search. -/
def first (otherwise : Outcome) : List Outcome → Outcome
  | [] => otherwise
  | .error (.rejected _) :: rest => first otherwise rest
  | part :: _ => part

/-- An embedded model reports its issues as one. That its name cannot be used is then an issue
too. -/
def embed (model : String) : Outcome → Outcome
  | .error (.rejected issues) => .error (.rejected [.model [] model issues])
  | .error (.broken .nullInName) => reject .nullInName
  | part => part

end Outcome

end CheckedModels
