import CheckedModels.Sdl.Parser

/-! The grammar of schema texts, as trees that know the tokens they are written with. What a tree leaves
out is not written: a list that is empty has no brackets. -/
namespace CheckedModels

namespace TypeRef

/-- A non-null mark never stands right on another one. -/
def Proper : TypeRef → Prop
  | named _ => True
  | list item => item.Proper
  | nonNull inner => inner.isNonNull = false ∧ inner.Proper

def lexemes : TypeRef → List Sdl.Lexeme
  | named n => [.name n]
  | list item => .punctuator .openBracket :: item.lexemes ++ [.punctuator .closeBracket]
  | nonNull inner => inner.lexemes ++ [.punctuator .bang]

end TypeRef

namespace Sdl.Grammar

/-- The tokens of a value without variables, whose brackets are nested at most so deep. -/
inductive IsConstant : Nat → List Lexeme → Prop where
  | scalar {depth : Nat} {l : Lexeme} (h : l.value?.isSome = true) : IsConstant depth [l]
  | list {depth : Nat} {items : List (List Lexeme)} (h : ∀ i ∈ items, IsConstant depth i) :
    IsConstant (depth + 1) (.punctuator .openBracket ::
      (items.flatten ++ [.punctuator .closeBracket]))
  | object {depth : Nat} {fields : List (String × List Lexeme)}
    (h : ∀ f ∈ fields, IsConstant depth f.2) :
    IsConstant (depth + 1) (.punctuator .openBrace ::
      (fields.flatMap (fun f => .name f.1 :: .punctuator .colon :: f.2) ++ [.punctuator .closeBrace]))

structure Constant (depth : Nat) where
  lexemes : List Lexeme
  isConstant : IsConstant depth lexemes

inductive Description where
  | string (value : String)
  | blockString (value : String)

def Description.lexeme : Description → Lexeme
  | string v => .string v
  | blockString v => .blockString v

/-- Items between brackets, or nothing at all. -/
def enclosed (start close : Punctuator) (items : List (List Lexeme)) : List Lexeme :=
  if items = [] then [] else .punctuator start :: (items.flatten ++ [.punctuator close])

def separatedBy (mark : Punctuator) : List String → List Lexeme
  | [] => []
  | [n] => [.name n]
  | n :: rest => .name n :: .punctuator mark :: separatedBy mark rest

def delimitedBy (mark : Punctuator) (leading : Bool) (names : List String) : List Lexeme :=
  (if leading then [.punctuator mark] else []) ++ separatedBy mark names

/- The trees of this section hold types and values whose brackets are nested at most so deep. -/
variable (depth : Nat)

structure Argument where
  name : String
  value : Constant depth

structure Directive where
  name : String
  arguments : List (Argument depth) := []

/-- An argument of a field or of a directive, or a field of an input. -/
structure InputValueDefinition where
  description : Option Description := none
  name : String
  type : TypeRef
  proper : type.Proper
  shallow : type.listDepth ≤ depth
  default : Option (Constant depth) := none
  directives : List (Directive depth) := []

structure FieldDefinition where
  description : Option Description := none
  name : String
  arguments : List (InputValueDefinition depth) := []
  type : TypeRef
  proper : type.Proper
  shallow : type.listDepth ≤ depth
  directives : List (Directive depth) := []

structure EnumValueDefinition where
  description : Option Description := none
  name : String
  free : name ∉ ["true", "false", "null"]
  directives : List (Directive depth) := []

structure RootOperation where
  word : String
  known : word ∈ ["query", "mutation", "subscription"]
  type : String

structure Record where
  name : String
  leading : Bool := false
  interfaces : List String := []
  directives : List (Directive depth) := []
  fields : List (FieldDefinition depth) := []

/-- What comes after the word that tells what is defined, or extended. -/
inductive Body where
  | schema (directives : List (Directive depth)) (roots : List RootOperation)
  | scalar (name : String) (directives : List (Directive depth))
  | object (r : Record depth)
  | interface (r : Record depth)
  | union (name : String) (directives : List (Directive depth)) (leading : Bool) (members : List String)
  | enum (name : String) (directives : List (Directive depth))
    (values : List (EnumValueDefinition depth))
  | input (name : String) (directives : List (Directive depth))
    (fields : List (InputValueDefinition depth))
  | directive (name : String) (arguments : List (InputValueDefinition depth))
    (directives : List (Directive depth)) (repeatable leading : Bool) (locations : List String)

variable {depth}

/-- What a definition cannot leave out. -/
def Body.Defines : Body depth → Prop
  | .schema _ roots => roots ≠ []
  | .directive _ _ _ _ _ locations => locations ≠ [] ∧ ∀ l ∈ locations, l ∈ Parser.locations
  | _ => True

/-- An extension adds something. Those of directives are apart. -/
def Body.Extends : Body depth → Prop
  | .schema directives roots => directives ≠ [] ∨ roots ≠ []
  | .scalar _ directives => directives ≠ []
  | .object r | .interface r => r.interfaces ≠ [] ∨ r.directives ≠ [] ∨ r.fields ≠ []
  | .union _ directives _ members => directives ≠ [] ∨ members ≠ []
  | .enum _ directives values => directives ≠ [] ∨ values ≠ []
  | .input _ directives fields => directives ≠ [] ∨ fields ≠ []
  | .directive .. => False

variable (depth) in
/-- A definition of a type, of the schema or of a directive, or an extension of one. -/
inductive Item where
  | definition (description : Option Description) (body : Body depth) (complete : body.Defines)
  | extension (body : Body depth) (adds : body.Extends)
  | directiveExtension (name : String) (directives : List (Directive depth)) (adds : directives ≠ [])

section Lexemes

def describe (description : Option Description) : List Lexeme :=
  (description.map Description.lexeme).toList

def Argument.lexemes (a : Argument depth) : List Lexeme :=
  .name a.name :: .punctuator .colon :: a.value.lexemes

def Directive.lexemes (d : Directive depth) : List Lexeme :=
  .punctuator .at :: .name d.name ::
    enclosed .openParen .closeParen (d.arguments.map Argument.lexemes)

def defaultLexemes : Option (Constant depth) → List Lexeme
  | none => []
  | some c => .punctuator .equals :: c.lexemes

def directiveLexemes (directives : List (Directive depth)) : List Lexeme :=
  directives.flatMap Directive.lexemes

def InputValueDefinition.lexemes (v : InputValueDefinition depth) : List Lexeme :=
  describe v.description ++ (.name v.name :: .punctuator .colon ::
    (v.type.lexemes ++ (defaultLexemes v.default ++ directiveLexemes v.directives)))

def FieldDefinition.lexemes (f : FieldDefinition depth) : List Lexeme :=
  describe f.description ++ (.name f.name ::
    (enclosed .openParen .closeParen (f.arguments.map InputValueDefinition.lexemes) ++
      (.punctuator .colon :: (f.type.lexemes ++ directiveLexemes f.directives))))

def EnumValueDefinition.lexemes (v : EnumValueDefinition depth) : List Lexeme :=
  describe v.description ++ (.name v.name :: directiveLexemes v.directives)

def RootOperation.lexemes (r : RootOperation) : List Lexeme :=
  [.name r.word, .punctuator .colon, .name r.type]

def interfaceLexemes (leading : Bool) (names : List String) : List Lexeme :=
  if names = [] then [] else .name "implements" :: delimitedBy .amp leading names

def memberLexemes (leading : Bool) (names : List String) : List Lexeme :=
  if names = [] then [] else .punctuator .equals :: delimitedBy .pipe leading names

def Record.lexemes (r : Record depth) : List Lexeme :=
  .name r.name :: (interfaceLexemes r.leading r.interfaces ++ (directiveLexemes r.directives ++
    enclosed .openBrace .closeBrace (r.fields.map FieldDefinition.lexemes)))

def Body.keyword : Body depth → String
  | .schema .. => "schema"
  | .scalar .. => "scalar"
  | .object .. => "type"
  | .interface .. => "interface"
  | .union .. => "union"
  | .enum .. => "enum"
  | .input .. => "input"
  | .directive .. => "directive"

def Body.lexemes : Body depth → List Lexeme
  | .schema directives roots => directiveLexemes directives ++
    enclosed .openBrace .closeBrace (roots.map RootOperation.lexemes)
  | .scalar name directives => .name name :: directiveLexemes directives
  | .object r | .interface r => r.lexemes
  | .union name directives leading members => .name name ::
    (directiveLexemes directives ++ memberLexemes leading members)
  | .enum name directives values => .name name :: (directiveLexemes directives ++
    enclosed .openBrace .closeBrace (values.map EnumValueDefinition.lexemes))
  | .input name directives fields => .name name :: (directiveLexemes directives ++
    enclosed .openBrace .closeBrace (fields.map InputValueDefinition.lexemes))
  | .directive name arguments directives repeatable leading locations =>
    .punctuator .at :: .name name ::
      (enclosed .openParen .closeParen (arguments.map InputValueDefinition.lexemes) ++
        (directiveLexemes directives ++ ((if repeatable then [.name "repeatable"] else []) ++
          (.name "on" :: delimitedBy .pipe leading locations))))

def Item.lexemes : Item depth → List Lexeme
  | .definition description body _ => describe description ++ (.name body.keyword :: body.lexemes)
  | .extension body _ => .name "extend" :: .name body.keyword :: body.lexemes
  | .directiveExtension name directives _ => .name "extend" :: .name "directive" ::
    .punctuator .at :: .name name :: directiveLexemes directives

end Lexemes

section Declared

def InputValueDefinition.field (v : InputValueDefinition depth) : Field := ⟨v.name, v.type, .unknown⟩

def FieldDefinition.field (f : FieldDefinition depth) : Field := ⟨f.name, f.type, .unknown⟩

def Record.declaration (r : Record depth) : RecordDeclaration :=
  ⟨r.name, r.fields.map FieldDefinition.field, r.interfaces⟩

def Body.declared? : Body depth → Option Declaration
  | .schema .. | .directive .. => none
  | .scalar name _ => some (.scalar ⟨name⟩)
  | .object r => some (.object r.declaration)
  | .interface r => some (.interface r.declaration)
  | .union name _ _ members => some (.union ⟨name, members⟩)
  | .enum name _ values => some (.enum ⟨name, values.map EnumValueDefinition.name⟩)
  | .input name _ fields => some (.input ⟨name, fields.map InputValueDefinition.field⟩)

def Body.made : Body depth → Definition
  | .schema .. => .skipped .schema
  | .scalar name _ => .declared (.scalar ⟨name⟩)
  | .object r => .declared (.object r.declaration)
  | .interface r => .declared (.interface r.declaration)
  | .union name _ _ members => .declared (.union ⟨name, members⟩)
  | .enum name _ values => .declared (.enum ⟨name, values.map EnumValueDefinition.name⟩)
  | .input name _ fields => .declared (.input ⟨name, fields.map InputValueDefinition.field⟩)
  | .directive .. => .skipped .directive

/-- What an extension is skipped as. -/
def Body.skippedAs : Body depth → Skipped
  | .schema .. => .schemaExtension
  | .scalar .. => .scalarExtension
  | .object .. => .objectExtension
  | .interface .. => .interfaceExtension
  | .union .. => .unionExtension
  | .enum .. => .enumExtension
  | .input .. => .inputExtension
  | .directive .. => .directiveExtension

def Item.made : Item depth → Definition
  | .definition _ body _ => body.made
  | .extension body _ => .skipped body.skippedAs
  | .directiveExtension .. => .skipped .directiveExtension

/-- Extensions declare nothing. -/
def Item.declared? : Item depth → Option Declaration
  | .definition _ body _ => body.declared?
  | .extension .. | .directiveExtension .. => none

end Declared

end Sdl.Grammar

end CheckedModels
