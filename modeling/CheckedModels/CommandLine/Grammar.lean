import CheckedModels.Entries
import CheckedModels.Text.Quoted

/-! What a program takes on its command line, and what it says when it is given something else. -/
namespace CheckedModels.CommandLine

inductive Flag where
  | help
  | verbose
  | config
  | json
deriving Repr, DecidableEq

/-- Only a configuration is given with a value. -/
def Flag.takesValue : Flag → Bool
  | config => true
  | _ => false

/-- `operands` are the names of what comes without a flag. With `takesRest` the last operand is
followed by words that are not looked at. -/
structure Grammar where
  program : String
  usage : String
  details : String
  flags : Entries Flag
  operands : List String
  takesRest : Bool := false
  required : Bool := true
deriving Repr, DecidableEq

namespace Grammar

def flag? (g : Grammar) (name : String) : Option Flag := g.flags.lookup name

def names (g : Grammar) (flag : Flag) : String :=
  "/".intercalate ((g.flags.filter fun e => e.2 = flag).map Prod.fst)

def help (g : Grammar) : String := g.usage ++ "\n\n" ++ g.details

end Grammar

inductive Misuse where
  | ambiguous (given : String) (matching : List String)
  | noValue (flag : String)
  | ignoredValue (flag value : String)
  | invalidChoice (operand value : String) (choices : List String)
  | missing (operands : List String)
  | unrecognized (arguments : List String)
deriving Repr, DecidableEq

def Misuse.message : Misuse → String
  | ambiguous given matching =>
    s!"ambiguous option: {given} could match " ++ ", ".intercalate matching
  | noValue flag => s!"argument {flag}: expected one argument"
  | ignoredValue flag value => s!"argument {flag}: ignored explicit argument {Text.quoted value}"
  | invalidChoice operand value choices =>
    s!"argument {operand}: invalid choice: {Text.quoted value} (choose from " ++
      ", ".intercalate (choices.map fun (choice : String) => Text.quoted choice) ++ ")"
  | missing operands => "the following arguments are required: " ++ ", ".intercalate operands
  | unrecognized arguments => "unrecognized arguments: " ++ " ".intercalate arguments

/-- Why the arguments are not taken further: help was asked for, or they do not fit. -/
inductive Stop where
  | help (g : Grammar)
  | misuse (g : Grammar) (m : Misuse)
deriving Repr, DecidableEq

end CheckedModels.CommandLine
