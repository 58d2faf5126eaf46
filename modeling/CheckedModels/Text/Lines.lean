/-! Line ends. -/
namespace CheckedModels.Text

/-- The two forms of line end that hold a carriage return become line feeds. -/
def unixLines : List Char → List Char
  | '\r' :: '\n' :: rest => '\n' :: unixLines rest
  | c :: rest => (if c == '\r' then '\n' else c) :: unixLines rest
  | [] => []

def firstLineOf (s : String) : String := String.ofList (s.toList.takeWhile (· ≠ '\n'))

end CheckedModels.Text
