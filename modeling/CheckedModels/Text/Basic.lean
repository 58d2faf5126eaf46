import CheckedModels.Text.Surrogate

/-! Text in which a half of a surrogate pair may stand alone, as the escapes of some formats
allow. -/
namespace CheckedModels

/-- Text is whole unless one of its code points is such a half. -/
inductive Text where
  | whole (s : String)
  | broken (codes : List Nat) (isBroken : codes.any Text.isSurrogate = true)
deriving Repr, DecidableEq

namespace Text

instance : Inhabited Text := ⟨.whole ""⟩

instance : Coe String Text := ⟨.whole⟩

def codes : Text → List Nat
  | whole s => s.toList.map Char.toNat
  | broken codes _ => codes

def ofCodes (codes : List Nat) : Text :=
  if h : codes.any isSurrogate then broken codes h else whole (String.ofList (codes.map Char.ofNat))

def append : Text → Text → Text
  | whole s, whole t => whole (s ++ t)
  | a, b => ofCodes (a.codes ++ b.codes)

instance : Append Text := ⟨append⟩

def intercalate (separator : Text) : List Text → Text
  | [] => whole ""
  | [part] => part
  | part :: rest => part ++ separator ++ intercalate separator rest

def codesLe : List Nat → List Nat → Bool
  | [], _ => true
  | _ :: _, [] => false
  | m :: a, n :: b => m < n || (m = n && codesLe a b)

/-- The order of code points. -/
def le (a b : Text) : Bool := codesLe a.codes b.codes

def isEmpty : Text → Bool
  | whole s => s.isEmpty
  | broken _ _ => false

def firstLine (t : Text) : Text := ofCodes (t.codes.takeWhile (· ≠ '\n'.toNat))

end Text

end CheckedModels
