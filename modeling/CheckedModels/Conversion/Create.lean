import CheckedModels.Conversion.Validate

/-! Making a value from plain data, and asking whether that would succeed. -/
namespace CheckedModels

structure ConversionError where
  value : Value
  typeName : String
  issues : List Issue

def ConversionError.message (e : ConversionError) : String :=
  Text.firstLineOf s!"Error while converting {e.value.literal} to `{e.typeName}`:"

inductive CreateError where
  | conversion (e : ConversionError)
  | fault (f : Fault)

def Fault.message : Fault → String
  | unsealed model => s!"Model '{model}' is still being compiled"
  | notRecord => "only a model can be the item of a map"
  | unregistered key => s!"Type '{key}' is not registered"
  | endless => "a union contains itself"
  | nullInName => Cause.nullInName.message

namespace Registry

/-- What comes of a value as part of a larger one. -/
def check (r : Registry) (d : Descriptor) (v : Value) : Outcome := r.validate r.entries.length d v

/-- What comes of a value by itself. -/
def convert (r : Registry) (d : Descriptor) (v : Value) : Outcome := r.onItsOwn d (r.check d v)

/-- Nothing at all builds a model from its defaults. -/
def input (r : Registry) (d : Descriptor) (v : Value) : Value :=
  match v, r.record? d with
  | .null, some _ => .dict []
  | v, _ => v

def create (r : Registry) (d : Descriptor) (v : Value) : Except CreateError Value :=
  match r.convert d (r.input d v) with
  | .ok made => .ok made
  | .error (.rejected issues) =>
    match r.typeName? d with
    | some name => .error (.conversion ⟨r.input d v, name, issues⟩)
    | none => .error (.fault .endless)
  | .error (.broken fault) => .error (.fault fault)

def isValid (r : Registry) (d : Descriptor) (v : Value) : Except Fault Bool :=
  match r.convert d v with
  | .ok _ => .ok true
  | .error (.rejected _) => .ok false
  | .error (.broken fault) => .error fault

end Registry

end CheckedModels
