import CheckedModels.Text.Lines
import CheckedModels.Text.Quoted
import CheckedModels.Value.Basic

/-! Why a value is rejected, and where in it. -/
namespace CheckedModels

/-- One step into a value: a key or the index of an item. -/
inductive Step where
  | key (name : String)
  | index (i : Int)
deriving Repr, DecidableEq, Inhabited

inductive Cause where
  | notString
  | notText
  | notInt
  | notFloat
  | notBool
  | notList
  | notMember (members : List String)
  | noMembers (enumeration : String)
  | notModel (name : String)
  | missing
  | extraKey
  | keyNotString
  | noAlternative (union : String)
  | notCollection
  | noIdentifier (model : String)
  | keyMismatch (key identifier : String)
  | mapKeyNotString (key : String)
  | duplicateIdentifier (key : String)
  | notAttributes
  | noTag
  | unknownTag (tag : String) (tags : List String)
  | notChoice (choices : List String)
  | tooDeep
  | nullInName
deriving Repr, DecidableEq, Inhabited

/-- An embedded model that rejects its value brings its own issues, with their own locations. -/
inductive Issue where
  | plain (location : List Step) (cause : Cause)
  | model (location : List Step) (name : String) (issues : List Issue)
deriving Repr, Inhabited

/-- Quoted names, with a final "or". -/
def alternatives (names : List String) : String :=
  match (names.map fun (name : String) => Text.quoted name).reverse with
  | [] => ""
  | [only] => only
  | last :: rest => ", ".intercalate rest.reverse ++ " or " ++ last

namespace Cause

def code : Cause → String
  | notString => "string_type"
  | notText => "string_unicode"
  | notInt => "int_type"
  | notFloat => "float_type"
  | notBool => "bool_type"
  | notList => "list_type"
  | notMember _ => "literal_error"
  | notModel _ => "model_type"
  | missing => "missing"
  | extraKey => "extra_forbidden"
  | keyNotString => "invalid_key"
  | notAttributes => "model_attributes_type"
  | noTag => "union_tag_not_found"
  | unknownTag _ _ => "union_tag_invalid"
  | notChoice _ => "enum"
  | tooDeep => "recursion_depth_exceeded"
  | noMembers _ | noAlternative _ | notCollection | noIdentifier _ | keyMismatch _ _
  | mapKeyNotString _ | duplicateIdentifier _ | nullInName => "value_error"

def message : Cause → String
  | notString => "Input should be a valid string"
  | notText => "Input should be a valid string, unable to parse raw data as a unicode string"
  | notInt => "Input should be a valid integer"
  | notFloat => "Input should be a valid number"
  | notBool => "Input should be a valid boolean"
  | notList => "Input should be a valid list"
  | notMember members => "Input should be " ++ alternatives members.eraseDups
  | noMembers enumeration => s!"enumeration '{enumeration}' has no members"
  | notModel name => "Input should be a valid dictionary or instance of " ++ name
  | missing => "Field required"
  | extraKey => "Extra inputs are not permitted"
  | keyNotString => "Keys should be strings"
  | noAlternative union => "value does not match any alternative of " ++ union
  | notCollection => "expected a mapping or a list of items"
  | noIdentifier model => s!"`{model}` has no identifier to key a list of items by"
  | keyMismatch key identifier => s!"key {key} does not match identifier {identifier}"
  | mapKeyNotString key => s!"map keys must be strings, got {key}"
  | duplicateIdentifier key => s!"duplicate identifier {key}"
  | notAttributes => "Input should be a valid dictionary or object to extract fields from"
  | noTag => "Unable to extract tag using discriminator 'kind'"
  | unknownTag tag tags =>
    s!"Input tag '{tag}' found using 'kind' does not match any of the expected tags: " ++
      ", ".intercalate (tags.map fun t => "'" ++ t ++ "'")
  | notChoice choices => "Input should be " ++ alternatives choices
  | tooDeep => "Recursion error - maximum validation depth exceeded"
  | nullInName => "type name must not contain null characters"

end Cause

namespace Issue

def location : Issue → List Step
  | plain location _ | model location _ _ => location

def code : Issue → String
  | plain _ cause => cause.code
  | model _ _ _ => "value_error"

/-- A message about a value as a whole ends with its line, and one about a model before the first
colon. -/
def message : Issue → String
  | plain _ cause =>
    if cause.code = "value_error" then Text.firstLineOf cause.message else cause.message
  | model _ name _ =>
    Text.firstLineOf (String.ofList (("not a valid `" ++ name ++ "`:").toList.takeWhile (· ≠ ':')))

def under (step : Step) : Issue → Issue
  | plain location cause => plain (step :: location) cause
  | model location name issues => model (step :: location) name issues

end Issue

end CheckedModels
