import CheckedModels.Declaration.Basic
import CheckedModels.Sdl.Cursor
import CheckedModels.Sdl.Lexer

/-! From tokens to definitions. Definitions that declare no type are checked and skipped. -/
namespace CheckedModels.Sdl

inductive Skipped where
  | operation
  | fragment
  | schema
  | directive
  | schemaExtension
  | scalarExtension
  | objectExtension
  | interfaceExtension
  | unionExtension
  | enumExtension
  | inputExtension
  | directiveExtension
deriving Repr, DecidableEq

def Skipped.text : Skipped → String
  | operation => "operation_definition"
  | fragment => "fragment_definition"
  | schema => "schema_definition"
  | directive => "directive_definition"
  | schemaExtension => "schema_extension"
  | scalarExtension => "scalar_type_extension"
  | objectExtension => "object_type_extension"
  | interfaceExtension => "interface_type_extension"
  | unionExtension => "union_type_extension"
  | enumExtension => "enum_type_extension"
  | inputExtension => "input_object_type_extension"
  | directiveExtension => "directive_extension"

inductive Definition where
  | declared (d : Declaration)
  | skipped (kind : Skipped)
deriving Repr, DecidableEq

namespace Parser

def tooDeep {α : Type} : Parser α := do failAt (← here) .nestedTooDeeply

def bracketed (inner : Parser TypeRef) : Parser TypeRef := do
  let item ← inner
  expect .closeBracket
  return .list item

def marked (type : TypeRef) : Parser TypeRef := do
  if ← accept (.punctuator .bang) then return .nonNull type
  return type

/-- A type; `inner` reads what stands between brackets. -/
def typeWith (inner : Parser TypeRef) : Parser TypeRef := do
  if ← accept (.punctuator .openBracket) then marked (← bracketed inner)
  else marked (.named (← name))

/-- A type inside of which so many more brackets may be opened. -/
def typeRef : Nat → Parser TypeRef
  | 0 => typeWith tooDeep
  | depth + 1 => typeWith (typeRef depth)

/-- A dollar sign where no variable may stand. -/
def constantVariable : Parser Unit := do
  let start ← here
  advance
  match ← peek with
  | some (.name value) => failAt start (.variableInConstant value)
  | _ => failAt start (.unexpected "'$'")

/-- A value; `nested` reads the values inside of it, unless brackets are too deep already. -/
def valueWith (constant : Bool) (nested : Option (Parser Unit)) : Parser Unit := do
  match ← peek with
  | some (.punctuator .openBracket) =>
    match nested with
    | none => tooDeep
    | some item => do
      let _ ← anyBetween .openBracket .closeBracket item
  | some (.punctuator .openBrace) =>
    match nested with
    | none => tooDeep
    | some item => do
      let _ ← anyBetween .openBrace .closeBrace (do
        let _ ← name
        expect .colon
        item)
  | some (.punctuator .dollar) =>
    if constant then constantVariable
    else do
      advance
      let _ ← name
  | some (.punctuator _) | none => unexpected
  | some _ => advance

def value (constant : Bool) : Nat → Parser Unit
  | 0 => valueWith constant none
  | depth + 1 => valueWith constant (some (value constant depth))

def arguments (constant : Bool) (depth : Nat) : Parser Unit := do
  let _ ← optionalBetween .openParen .closeParen (do
    let _ ← name
    expect .colon
    value constant depth)

def directive (constant : Bool) (depth : Nat) : Parser Unit := do
  expect .at
  let _ ← name
  arguments constant depth

def directives (constant : Bool) (depth : Nat) (ts : Tokens) : Except Error (Nat × Tokens) := do
  if ts.head? ≠ some (.punctuator .at) then return (0, ts)
  let ((), rest) ← (directive constant depth).run ts
  if rest.size < ts.size then
    let (count, rest) ← directives constant depth rest
    return (count + 1, rest)
  else return (1, rest)
termination_by ts.size

section Limited

/- How many brackets of a type, a value or a selection set may be open at once. -/
variable (limit : Nat)

def constDirectives : Parser Nat := directives true limit

def peekDescription : Parser Bool := do
  match ← peek with
  | some (.string _) | some (.blockString _) => return true
  | _ => return false

def description : Parser Unit := do
  if ← peekDescription then advance

def fragmentName : Parser Unit := do
  if ((← peek).bind Lexeme.value?) = some "on" then unexpected
  let _ ← name

/-- The braces of a selection set; `nested` reads the sets inside of it. -/
def selectionWith (depth : Nat) (nested : Parser Unit) : Parser Unit := do
  if ← accept (.punctuator .spread) then
    if ← acceptKeyword "on" then
      let _ ← name
      let _ ← directives false depth
      nested
    else
      match ← peek with
      | some (.name _) =>
        fragmentName
        let _ ← directives false depth
      | _ =>
        let _ ← directives false depth
        nested
  else
    let _ ← name
    if ← accept (.punctuator .colon) then
      let _ ← name
    arguments false depth
    let _ ← directives false depth
    if ← nextIs (.punctuator .openBrace) then nested

def selectionSet : Nat → Parser Unit
  | 0 => tooDeep
  | depth + 1 => do
    let _ ← anyBetween .openBrace .closeBrace (selectionWith depth (selectionSet depth))

def operationWord : Parser Unit := do
  let start ← get
  let word ← name
  if !(["query", "mutation", "subscription"].contains word) then
    failAt start.offset (.unexpected start.describe)

def variableDefinition : Parser Unit := do
  description
  expect .dollar
  let _ ← name
  expect .colon
  let _ ← typeRef limit
  if ← accept (.punctuator .equals) then value true limit
  let _ ← constDirectives limit

def operation : Parser Definition := do
  if ← nextIs (.punctuator .openBrace) then
    selectionSet limit
    return .skipped .operation
  description
  operationWord
  match ← peek with
  | some (.name _) => advance
  | _ => pure ()
  let _ ← optionalBetween .openParen .closeParen (variableDefinition limit)
  let _ ← directives false limit
  selectionSet limit
  return .skipped .operation

def fragment : Parser Definition := do
  description
  expectKeyword "fragment"
  fragmentName
  expectKeyword "on"
  let _ ← name
  let _ ← directives false limit
  selectionSet limit
  return .skipped .fragment

def interfaces : Parser (List String) := do
  if ← acceptKeyword "implements" then delimited .amp name
  else return []

def inputValue : Parser Field := do
  description
  let fieldName ← name
  expect .colon
  let type ← typeRef limit
  if ← accept (.punctuator .equals) then value true limit
  let _ ← constDirectives limit
  return ⟨fieldName, type, .unknown⟩

def field : Parser Field := do
  description
  let fieldName ← name
  let _ ← optionalBetween .openParen .closeParen (inputValue limit)
  expect .colon
  let type ← typeRef limit
  let _ ← constDirectives limit
  return ⟨fieldName, type, .unknown⟩

def fields : Parser (List Field) := optionalBetween .openBrace .closeBrace (field limit)

def inputFields : Parser (List Field) := optionalBetween .openBrace .closeBrace (inputValue limit)

def unionMembers : Parser (List String) := do
  if ← accept (.punctuator .equals) then delimited .pipe name
  else return []

def enumValue : Parser String := do
  description
  let ts ← get
  match ts.head?.bind Lexeme.value? with
  | some word =>
    if ["true", "false", "null"].contains word then
      failAt ts.offset (.reservedName ts.describe)
  | none => pure ()
  let word ← name
  let _ ← constDirectives limit
  return word

def enumValues : Parser (List String) := optionalBetween .openBrace .closeBrace (enumValue limit)

def rootOperation : Parser Unit := do
  operationWord
  expect .colon
  let _ ← name

def locations : List String :=
  ["QUERY", "MUTATION", "SUBSCRIPTION", "FIELD", "FRAGMENT_DEFINITION", "FRAGMENT_SPREAD",
    "INLINE_FRAGMENT", "VARIABLE_DEFINITION", "SCHEMA", "SCALAR", "OBJECT", "FIELD_DEFINITION",
    "ARGUMENT_DEFINITION", "INTERFACE", "UNION", "ENUM", "ENUM_VALUE", "INPUT_OBJECT",
    "INPUT_FIELD_DEFINITION", "DIRECTIVE_DEFINITION"]

def location : Parser Unit := do
  let start ← get
  let word ← name
  if !(locations.contains word) then failAt start.offset (.unexpected start.describe)

def schemaBody : Parser Definition := do
  let _ ← constDirectives limit
  let _ ← someBetween .openBrace .closeBrace rootOperation
  return .skipped .schema

def directiveBody : Parser Definition := do
  expect .at
  let _ ← name
  let _ ← optionalBetween .openParen .closeParen (inputValue limit)
  let _ ← constDirectives limit
  let _ ← acceptKeyword "repeatable"
  expectKeyword "on"
  let _ ← delimited .pipe location
  return .skipped .directive

def recordBody : Parser RecordDeclaration := do
  let typeName ← name
  let implemented ← interfaces
  let _ ← constDirectives limit
  return ⟨typeName, ← fields limit, implemented⟩

def unionBody : Parser UnionDeclaration := do
  let typeName ← name
  let _ ← constDirectives limit
  return ⟨typeName, ← unionMembers⟩

def enumBody : Parser EnumDeclaration := do
  let typeName ← name
  let _ ← constDirectives limit
  return ⟨typeName, ← enumValues limit⟩

def inputBody : Parser InputDeclaration := do
  let typeName ← name
  let _ ← constDirectives limit
  return ⟨typeName, ← inputFields limit⟩

def scalarBody : Parser ScalarDeclaration := do
  let typeName ← name
  let _ ← constDirectives limit
  return ⟨typeName⟩

/-- The definitions that a keyword begins. -/
def keywordBody? : String → Option (Parser Definition)
  | "schema" => some (schemaBody limit)
  | "scalar" => some do return .declared (.scalar (← scalarBody limit))
  | "type" => some do return .declared (.object (← recordBody limit))
  | "interface" => some do return .declared (.interface (← recordBody limit))
  | "union" => some do return .declared (.union (← unionBody limit))
  | "enum" => some do return .declared (.enum (← enumBody limit))
  | "input" => some do return .declared (.input (← inputBody limit))
  | "directive" => some (directiveBody limit)
  | _ => none

/-- An extension has to add something. -/
def adding (kind : Skipped) (added : Bool) : Parser Definition := do
  if !added then unexpected
  return .skipped kind

def recordExtension (kind : Skipped) : Parser Definition := do
  let _ ← name
  let implemented ← interfaces
  let count ← constDirectives limit
  let own ← fields limit
  adding kind (!implemented.isEmpty || 0 < count || !own.isEmpty)

def extensionBody? : String → Option (Parser Definition)
  | "schema" => some do
    let count ← constDirectives limit
    let roots ← optionalBetween .openBrace .closeBrace rootOperation
    adding .schemaExtension (0 < count || !roots.isEmpty)
  | "scalar" => some do
    let _ ← name
    adding .scalarExtension (0 < (← constDirectives limit))
  | "type" => some (recordExtension limit .objectExtension)
  | "interface" => some (recordExtension limit .interfaceExtension)
  | "union" => some do
    let _ ← name
    let count ← constDirectives limit
    let members ← unionMembers
    adding .unionExtension (0 < count || !members.isEmpty)
  | "enum" => some do
    let _ ← name
    let count ← constDirectives limit
    let values ← enumValues limit
    adding .enumExtension (0 < count || !values.isEmpty)
  | "input" => some do
    let _ ← name
    let count ← constDirectives limit
    let own ← inputFields limit
    adding .inputExtension (0 < count || !own.isEmpty)
  | "directive" => some do
    expect .at
    let _ ← name
    adding .directiveExtension (0 < (← constDirectives limit))
  | _ => none

def extended : Parser Definition := do
  let keyword ← following
  match keyword.head? with
  | some (.name word) =>
    match extensionBody? limit word with
    | some body =>
      advance
      advance
      body
    | none => failAt keyword.offset (.unexpected keyword.describe)
  | _ => failAt keyword.offset (.unexpected keyword.describe)

/-- A description may stand before every definition but a query in short form and an extension. -/
def definition : Parser Definition := do
  let described ← peekDescription
  let start ← here
  let keyword ← if described then following else get
  match keyword.head? with
  | some (.punctuator .openBrace) =>
    if described then failAt start .describedQuery
    operation limit
  | some (.name word) =>
    match keywordBody? limit word with
    | some body =>
      description
      advance
      body
    | none =>
      if ["query", "mutation", "subscription"].contains word then operation limit
      else if word = "fragment" then fragment limit
      else if described then failAt start .describedOther
      else if word = "extend" then extended limit
      else failAt keyword.offset (.unexpected keyword.describe)
  | _ => failAt keyword.offset (.unexpected keyword.describe)

/-- Definitions up to the end of the text, at least one. -/
def definitions (ts : Tokens) : Except Error (List Definition) := do
  let (first, rest) ← (definition limit).run ts
  match rest with
  | .done _ => return [first]
  | _ =>
    if rest.size < ts.size then return first :: (← definitions rest)
    else return [first]
termination_by ts.size

end Limited

end Parser

/-- The definitions of a schema text in the order of the text. -/
def readWithin (limit : Nat) (text : String) : Except Error (List Definition) := do
  Parser.definitions limit (← Parser.readable (Tokens.ofText text))

/-- How many brackets may be open at once in the texts that are read. -/
def depthLimit : Nat := 200

def read (text : String) : Except Error (List Definition) := readWithin depthLimit text

end CheckedModels.Sdl
