import CheckedModels.Files.Basic

/-! The files below one folder. -/
namespace CheckedModels

inductive Content where
  | file (bytes : ByteArray)
  | folder

/-- What is there under each path. A folder need not be listed if something is in it. -/
structure Folder where
  entries : List (String × Content)

namespace Folder

def content? (f : Folder) (path : String) : Option Content :=
  match f.entries.find? fun e => Files.path e.1 == path with
  | some e => some e.2
  | none =>
    if f.entries.any fun e => (Files.path e.1).startsWith (path ++ "/") then some .folder else none

/-- Follows the parts of a path from the folder that `done` leads to. The way out of the folder ends
at the top of another, which is its own way out. -/
def follow (f outer : Folder) (done : List String) : List String → Except FileFault ByteArray
  | [] => .error .folder
  | ".." :: rest =>
    match done with
    | [] => follow outer outer [] rest
    | _ :: before => follow f outer before rest
  | part :: rest =>
    if 255 < part.utf8ByteSize then .error .longName
    else
      match f.content? ("/".intercalate (part :: done).reverse) with
      | none => .error .missing
      | some .folder => follow f outer (part :: done) rest
      | some (.file bytes) => if rest.isEmpty then .ok bytes else .error .notFolder

/-- What is there on every system. -/
def root : Folder := ⟨[("dev/null", .file .empty)]⟩

/-- The files under paths that start at the folder. Of what lies outside of it nothing is known. -/
def files (f : Folder) : Files := fun path =>
  let parts := (path.splitOn "/").filter fun part => part ≠ "" && part ≠ "."
  if 4096 ≤ path.utf8ByteSize then .error .longName
  else if path.startsWith "/" then follow root root [] parts
  else follow f ⟨[]⟩ [] parts

end Folder

end CheckedModels
