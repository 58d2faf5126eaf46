import CheckedModels.Text.Lines
import CheckedModels.Text.Quoted

/-! Reading text files. -/
namespace CheckedModels

/-- Why the system does not give the content of a file, with the number it has for that. -/
structure FileFault where
  number : Nat
  reason : String
deriving Repr, DecidableEq

namespace FileFault

def missing : FileFault := ⟨2, "No such file or directory"⟩

def notFolder : FileFault := ⟨20, "Not a directory"⟩

def folder : FileFault := ⟨21, "Is a directory"⟩

def longName : FileFault := ⟨36, "File name too long"⟩

def message (path : String) (f : FileFault) : String :=
  s!"[Errno {f.number}] {f.reason}: {Text.quoted path}"

end FileFault

/-- What is found under the paths of a file system. -/
abbrev Files := String → Except FileFault ByteArray

/-- Content that is no text, and a path that no file can have. -/
inductive TextFault where
  | notUnicode
  | nullInPath
deriving Repr, DecidableEq

def TextFault.message : TextFault → String
  | notUnicode => "the file is not text in UTF-8"
  | nullInPath => "embedded null byte"

inductive ReadFailure where
  | file (f : FileFault)
  | text (f : TextFault)
deriving Repr, DecidableEq

namespace Files

/-- The shortest form of a path: repeated slashes and single dots say nothing. Two slashes at the
start differ from one. -/
def path (s : String) : String :=
  let parts := (s.splitOn "/").filter fun part => part ≠ "" && part ≠ "."
  let root :=
    if s.startsWith "//" && !s.startsWith "///" then "//" else if s.startsWith "/" then "/" else ""
  let short := root ++ "/".intercalate parts
  if short.isEmpty then "." else short

/-- The text of a file, with line feeds for all line ends. -/
def readText (files : Files) (path : String) : Except ReadFailure String :=
  if path.contains '\x00' then .error (.text .nullInPath)
  else
    match files path with
    | .error f => .error (.file f)
    | .ok content =>
      match String.fromUTF8? content with
      | some text => .ok (String.ofList (Text.unixLines text.toList))
      | none => .error (.text .notUnicode)

end Files

end CheckedModels
