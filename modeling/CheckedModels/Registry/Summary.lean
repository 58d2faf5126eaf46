import CheckedModels.Json.Writer
import CheckedModels.Registry.TypeName

/-! Descriptions of definitions that name what they refer to, so that cyclic ones stay finite. -/
namespace CheckedModels

inductive TypeKind where
  | primitive
  | identifier
  | frozen
  | maybeNull
  | array
  | enumeration
  | model
  | union
  | map
deriving Repr, DecidableEq

namespace TypeKind

def text : TypeKind → String
  | primitive => "primitive"
  | identifier => "identifier"
  | frozen => "frozen"
  | maybeNull => "maybe_null"
  | array => "array"
  | enumeration => "enumeration"
  | model => "model"
  | union => "union"
  | map => "map"

def className : TypeKind → String
  | primitive => "PrimitiveType"
  | identifier => "IdentifierType"
  | frozen => "FrozenType"
  | maybeNull => "MaybeNullType"
  | array => "ArrayType"
  | enumeration => "EnumerationType"
  | model => "ModelType"
  | union => "UnionType"
  | map => "MapType"

end TypeKind

def Basic.kind : Basic → TypeKind
  | .string | .number | .boolean => .primitive
  | .identifier => .identifier
  | .frozen => .frozen

def Definition.kind : Definition → TypeKind
  | .basic b => b.kind
  | .enumeration _ => .enumeration
  | .model _ => .model
  | .union _ => .union

namespace Registry

/-- A key that nothing is registered under is taken for an opaque value. -/
def kind (r : Registry) : Descriptor → TypeKind
  | .basic b => b.kind
  | .maybeNull _ => .maybeNull
  | .array _ => .array
  | .map _ => .map
  | .named key => ((r.find? key).map Definition.kind).getD .frozen

/-- The members that every summary begins with. -/
def heading (r : Registry) (d : Descriptor) : Entries Json :=
  [("kind", .str (r.kind d).text), ("name", .str (r.typeName d))]

/-- A reference from one descriptor to another: null, array and map layers are shown whole, named
types by name. -/
def reference (r : Registry) : Descriptor → Json
  | .maybeNull inner => .record (r.heading (.maybeNull inner) ++ [("inner", r.reference inner)])
  | .array item => .record (r.heading (.array item) ++ [("item", r.reference item)])
  | .map item => .record (r.heading (.map item) ++ [("model", .str (r.typeName item))])
  | d => .record (r.heading d)

def summary (r : Registry) (d : Descriptor) : Json :=
  match d with
  | .named key =>
    match r.find? key with
    | some (.model m) =>
      .record (r.heading d ++
        [("properties", .record (m.properties.map fun p => (p.1, .str (r.typeName p.2))))] ++
        (m.identifier?.map fun id => ("identifier", Json.str id)).toList)
    | some (.enumeration e) => .record (r.heading d ++ [("values", .arr (e.values.map fun (value : String) => .str value))])
    | some (.union u) =>
      .record (r.heading d ++
        [("types", .arr (u.alternatives.map fun a => .str (r.typeName a)))] ++
        (u.declaredName.map fun name => ("declared_name", Json.str name)).toList)
    | _ => .record (r.heading d)
  | d => r.reference d

/-- The summary of all definitions, with the version of its form. -/
def document (r : Registry) : Json :=
  .record [("v", .str "1"), ("types", .record (r.keys.map fun key => (key, r.summary (.named key))))]

def serialize (r : Registry) : String := r.document.write

def line (r : Registry) (d : Descriptor) : String :=
  match d with
  | .named key =>
    match r.find? key with
    | some (.model m) =>
      "model \x7b" ++
        ", ".intercalate (m.properties.map fun p => p.1 ++ ": " ++ r.typeName p.2) ++ "\x7d"
    | some (.enumeration e) => "enum \x7b" ++ ", ".intercalate e.values ++ "\x7d"
    | some (.union _) => "union " ++ r.typeName d
    | _ => r.typeName d
  | d => r.typeName d

/-- The class of a descriptor and its name. -/
def display (r : Registry) (d : Descriptor) : String :=
  "<" ++ (r.kind d).className ++ " " ++ r.typeName d ++ ">"

end Registry

end CheckedModels
