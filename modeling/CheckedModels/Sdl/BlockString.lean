/-! Strings between triple quotes, which may span lines and lose their common indentation. -/
namespace CheckedModels.Sdl

def splitLines : List Char → List (List Char)
  | [] => [[]]
  | '\n' :: rest => [] :: splitLines rest
  | c :: rest =>
    match splitLines rest with
    | line :: more => (c :: line) :: more
    | [] => [[c]]

def isIndent (c : Char) : Bool := c == ' ' || c == '\t'

def isBlank (line : List Char) : Bool := line.all isIndent

/-- The least indentation of the lines that are not blank, the first line aside. -/
def commonIndent (lines : List (List Char)) : Option Nat :=
  (((lines.drop 1).filter fun line => !isBlank line).map fun line =>
    (line.takeWhile isIndent).length).min?

def dropBlankEnds (lines : List (List Char)) : List (List Char) :=
  ((lines.dropWhile isBlank).reverse.dropWhile isBlank).reverse

/-- The common indentation is taken off every line but the first, blank lines at both ends go. -/
def dedent (raw : List Char) : String :=
  let lines := splitLines raw
  let stripped := match commonIndent lines, lines with
    | some n, first :: rest => first :: rest.map (·.drop n)
    | _, _ => lines
  String.intercalate "\n" ((dropBlankEnds stripped).map String.ofList)

end CheckedModels.Sdl
