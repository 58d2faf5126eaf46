/-! Sets of characters given as inclusive ranges of code points. -/
namespace CheckedModels.Text

abbrev Ranges := List (Nat × Nat)

def Ranges.containsCode (r : Ranges) (n : Nat) : Bool :=
  r.any fun range => range.1 ≤ n && n ≤ range.2

def Ranges.contains (r : Ranges) (c : Char) : Bool := r.containsCode c.toNat

end CheckedModels.Text
