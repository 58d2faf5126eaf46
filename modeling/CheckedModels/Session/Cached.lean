import CheckedModels.Conversion.Collection
import CheckedModels.Conversion.RecordClass

/-! Conversions that keep what they work out on the way, also when they fail. -/
namespace CheckedModels

/-- What validates the values of a descriptor: the class of a model, as it was made of the properties that
the model had then, or layers, which look up each time what they refer to. -/
inductive Validator where
  | record (key : String) (c : RecordClass)
  | layers (d : Descriptor)

/-- Layers lead to the class of a model, and a class to parts of the value. -/
noncomputable def Validator.rank : Validator → Nat
  | record _ _ => 0
  | layers d => sizeOf d + 1

/-- The classes and validators made so far. Descriptors with the same layers share a validator. -/
structure Caches where
  classes : Entries RecordClass := []
  validators : List (Descriptor × Validator) := []
deriving Inhabited

abbrev Cached (α : Type) := ExceptT Failure (StateM Caches) α

namespace Cached

variable {α β : Type}

def go (x : Cached α) (c : Caches) : Except Failure α × Caches := x.run.run c

def of (x : Except Failure α) : Cached α := ExceptT.mk (pure x)

def via (f : Except Failure α → Except Failure β) (x : Cached α) : Cached β :=
  ExceptT.mk (f <$> x.run)

/-- How a conversion ends; the failure is not passed on. -/
def attempt (x : Cached α) : Cached (Except Failure α) := x.via .ok

/-- As `Outcome.gather`; nothing is done after a fault. -/
def gather : List (Step × Cached Value) → Cached (List Value)
  | [] => return []
  | (step, part) :: rest => do
    match ← attempt part with
    | .ok v => return v :: (← gather rest)
    | .error (.broken fault) => throw (.broken fault)
    | .error (.rejected issues) =>
      match ← attempt (gather rest) with
      | .error (.broken fault) => throw (.broken fault)
      | .error (.rejected more) => throw (.rejected (issues.map (Issue.under step) ++ more))
      | .ok _ => throw (.rejected (issues.map (Issue.under step)))

/-- As `Outcome.first`; nothing is done after the part that is taken. -/
def first (otherwise : Outcome) : List (Cached Value) → Cached Value
  | [] => of otherwise
  | part :: rest => do
    match ← attempt part with
    | .error (.rejected _) => first otherwise rest
    | ended => of ended

/-- As `Collection.index`; nothing is done after the first entry that fails. -/
def index (name : Option String) (done : List (Text × Value)) :
    List (Option Scalar × Cached Value) → Cached (List (Text × Value))
  | [] => return done
  | (given, part) :: rest => do
    let made ← part
    let done ← of (Collection.index name done [(given, .ok made)])
    index name done rest

end Cached

end CheckedModels
