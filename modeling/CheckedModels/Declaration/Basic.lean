/-! What a schema declares: objects, inputs, interfaces, unions, enums and scalars. -/
namespace CheckedModels

/-- What the named type of a field is. `unknown` stands for a kind that was not looked up yet, or a
name that nothing declares. -/
inductive ReferencedKind where
  | primitive
  | identifier
  | object
  | input
  | interface
  | union
  | enum
  | scalar
  | unknown
deriving Repr, DecidableEq, Inhabited

inductive DeclarationKind where
  | object
  | input
  | interface
  | union
  | enum
  | scalar
deriving Repr, DecidableEq, Inhabited

namespace DeclarationKind

def text : DeclarationKind → String
  | object => "object"
  | input => "input"
  | interface => "interface"
  | union => "union"
  | enum => "enum"
  | scalar => "scalar"

def toReferenced : DeclarationKind → ReferencedKind
  | object => .object
  | input => .input
  | interface => .interface
  | union => .union
  | enum => .enum
  | scalar => .scalar

end DeclarationKind

namespace ReferencedKind

def all : List ReferencedKind :=
  [primitive, identifier, object, input, interface, union, enum, scalar, unknown]

def declared? : ReferencedKind → Option DeclarationKind
  | object => some .object
  | input => some .input
  | interface => some .interface
  | union => some .union
  | enum => some .enum
  | scalar => some .scalar
  | _ => none

def text : ReferencedKind → String
  | primitive => "primitive"
  | identifier => "identifier"
  | unknown => "unknown"
  | object => "object"
  | input => "input"
  | interface => "interface"
  | union => "union"
  | enum => "enum"
  | scalar => "scalar"

@[simp] theorem declared?_toReferenced (k : DeclarationKind) : k.toReferenced.declared? = some k := by
  cases k <;> rfl

end ReferencedKind

/-- The type of a field: a name under any number of list and non-null marks. -/
inductive TypeRef where
  | named (name : String)
  | list (item : TypeRef)
  | nonNull (inner : TypeRef)
deriving Repr, DecidableEq, Inhabited

namespace TypeRef

def innermost : TypeRef → String
  | named n => n
  | list item => item.innermost
  | nonNull inner => inner.innermost

def listDepth : TypeRef → Nat
  | named _ => 0
  | list item => item.listDepth + 1
  | nonNull inner => inner.listDepth

def isNonNull : TypeRef → Bool
  | nonNull _ => true
  | _ => false

/-- Whether the position around the name itself carries a non-null mark; `marked` tells whether the
position so far does. -/
def leafIsNonNull (marked : Bool) : TypeRef → Bool
  | named _ => marked
  | list item => item.leafIsNonNull false
  | nonNull inner => inner.leafIsNonNull true

end TypeRef

structure Field where
  name : String
  type : TypeRef
  kind : ReferencedKind := .unknown
deriving Repr, DecidableEq, Inhabited

namespace Field

def typeName (f : Field) : String := f.type.innermost

def isRequired (f : Field) : Bool := f.type.isNonNull

def listDepth (f : Field) : Nat := f.type.listDepth

def isList (f : Field) : Bool := 0 < f.listDepth

def listIsRequired (f : Field) : Bool := f.isList && f.isRequired

def itemIsRequired (f : Field) : Bool := f.isList && f.type.leafIsNonNull false

/-- Such a field may become the identifier of its model. -/
def isIdentifierCandidate (f : Field) : Bool := f.kind == .identifier && !f.isList

end Field

structure RecordDeclaration where
  name : String
  fields : List Field := []
  interfaces : List String := []
deriving Repr, DecidableEq, Inhabited

structure InputDeclaration where
  name : String
  fields : List Field := []
deriving Repr, DecidableEq, Inhabited

structure UnionDeclaration where
  name : String
  members : List String := []
deriving Repr, DecidableEq, Inhabited

structure EnumDeclaration where
  name : String
  values : List String := []
deriving Repr, DecidableEq, Inhabited

structure ScalarDeclaration where
  name : String
deriving Repr, DecidableEq, Inhabited

inductive Declaration where
  | object (d : RecordDeclaration)
  | input (d : InputDeclaration)
  | interface (d : RecordDeclaration)
  | union (d : UnionDeclaration)
  | enum (d : EnumDeclaration)
  | scalar (d : ScalarDeclaration)
deriving Repr, DecidableEq, Inhabited

namespace Declaration

def name : Declaration → String
  | object d | interface d => d.name
  | input d => d.name
  | union d => d.name
  | enum d => d.name
  | scalar d => d.name

def kind : Declaration → DeclarationKind
  | object _ => .object
  | input _ => .input
  | interface _ => .interface
  | union _ => .union
  | enum _ => .enum
  | scalar _ => .scalar

def fields : Declaration → List Field
  | object d | interface d => d.fields
  | input d => d.fields
  | _ => []

def interfaces : Declaration → List String
  | object d | interface d => d.interfaces
  | _ => []

/-- Objects, inputs and interfaces become models. -/
def isModel (d : Declaration) : Bool :=
  match d.kind with
  | .object | .input | .interface => true
  | _ => false

end Declaration

/-- All declarations of a schema by category. Names may repeat. -/
structure Declarations where
  objects : List RecordDeclaration := []
  inputs : List InputDeclaration := []
  interfaces : List RecordDeclaration := []
  unions : List UnionDeclaration := []
  enums : List EnumDeclaration := []
  scalars : List ScalarDeclaration := []
deriving Repr, DecidableEq, Inhabited

namespace Declarations

/-- The order in which categories are searched. -/
def all (ds : Declarations) : List Declaration :=
  ds.objects.map .object ++ ds.inputs.map .input ++ ds.interfaces.map .interface ++
    ds.unions.map .union ++ ds.enums.map .enum ++ ds.scalars.map .scalar

def find? (ds : Declarations) (name : String) : Option Declaration :=
  ds.all.find? fun d => d.name == name

def findKind? (ds : Declarations) (kind : DeclarationKind) (name : String) : Option Declaration :=
  ds.all.find? fun d => d.name == name && d.kind == kind

def add (ds : Declarations) : Declaration → Declarations
  | .object d => { ds with objects := ds.objects ++ [d] }
  | .input d => { ds with inputs := ds.inputs ++ [d] }
  | .interface d => { ds with interfaces := ds.interfaces ++ [d] }
  | .union d => { ds with unions := ds.unions ++ [d] }
  | .enum d => { ds with enums := ds.enums ++ [d] }
  | .scalar d => { ds with scalars := ds.scalars ++ [d] }

def ofList (declared : List Declaration) : Declarations := declared.foldl add {}

theorem find?_mem {ds : Declarations} {name : String} {d : Declaration}
    (h : ds.find? name = some d) : d ∈ ds.all ∧ d.name = name := by
  refine ⟨List.mem_of_find?_eq_some h, ?_⟩
  have := List.find?_some h
  simpa using this

theorem findKind?_mem {ds : Declarations} {kind : DeclarationKind} {name : String}
    {d : Declaration} (h : ds.findKind? kind name = some d) :
    d ∈ ds.all ∧ d.name = name ∧ d.kind = kind := by
  refine ⟨List.mem_of_find?_eq_some h, ?_⟩
  have := List.find?_some h
  simpa using this

end Declarations

end CheckedModels
