import CheckedModels.Entries
import CheckedModels.Text.Basic

/-! What a text is read as before its structure is known. -/
namespace CheckedModels.Yaml

/-- A tag as it is written. Without a handle the suffix is the whole tag. -/
structure TagMark where
  handle : Option String := none
  suffix : String
deriving Repr, DecidableEq

inductive Directive where
  | version (major : Nat)
  | tag (handle replacement : String)
  | unknown
deriving Repr, DecidableEq

inductive Token where
  | directive (d : Directive)
  | documentStart
  | documentEnd
  | blockSequenceStart
  | blockMappingStart
  | blockEnd
  | flowSequenceStart
  | flowSequenceEnd
  | flowMappingStart
  | flowMappingEnd
  | blockEntry
  | flowEntry
  | key
  | value
  | reference (name : String)
  | anchor (name : String)
  | tag (t : TagMark)
  | scalar (text : Text) (plain : Bool)
deriving Repr, DecidableEq

end CheckedModels.Yaml
