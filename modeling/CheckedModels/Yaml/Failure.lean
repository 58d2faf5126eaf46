/-! Why a text stands for no data. -/
namespace CheckedModels.Yaml

/-- All but the first and the last are complaints about one scalar, or what is given for one. -/
inductive Failure where
  | malformed
  | badValue (message : String)
  | emptyNumber
  | tooLarge
  | notTruth
  | notMoment
  | momentOfParts
  | endless
  | tooDeep
deriving Repr, DecidableEq, Inhabited

def Failure.message : Failure → String
  | malformed => "not a document"
  | badValue message => message
  | emptyNumber => "a number without digits"
  | tooLarge => "a number that is too large"
  | notTruth => "not a truth value"
  | notMoment => "not a date"
  | momentOfParts => "a date that is written as a collection"
  | endless => "a collection that is its own text"
  | tooDeep => "collections that are nested too deeply"

end CheckedModels.Yaml
