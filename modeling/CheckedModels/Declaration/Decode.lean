import CheckedModels.Conversion.Issue
import CheckedModels.Declaration.Basic
import CheckedModels.Value.Literal

/-! Declarations read from plain data. All issues are reported, in the order of the fields. -/
namespace CheckedModels

/-- A result, or everything that is wrong. -/
abbrev Decoded (α : Type) := Except (List Issue) α

namespace Decoded

variable {α β : Type}

def reject (cause : Cause) : Decoded α := .error [.plain [] cause]

def under (step : Step) : Decoded α → Decoded α
  | .error issues => .error (issues.map (Issue.under step))
  | .ok x => .ok x

def both (first : Decoded α) (second : Decoded β) : Decoded (α × β) :=
  match first, second with
  | .ok x, .ok y => .ok (x, y)
  | .error issues, .error more => .error (issues ++ more)
  | .error issues, .ok _ => .error issues
  | .ok _, .error issues => .error issues

def items (read : Json → Decoded α) (i : Nat) : List Json → Decoded (List α)
  | [] => .ok []
  | j :: rest => (fun p => p.1 :: p.2) <$> both (under (.index i) (read j)) (items read (i + 1) rest)

def list (read : Json → Decoded α) : Json → Decoded (List α)
  | .arr js => items read 0 js
  | _ => reject .notList

def string : Json → Decoded String
  | .str (.whole s) => .ok s
  | .str _ => reject .notText
  | _ => reject .notString

def required (members : Json.Members) (key : String) (read : Json → Decoded α) : Decoded α :=
  under (.key key) (((Json.under? members key).map read).getD (reject .missing))

def optional (members : Json.Members) (key : String) (default : α) (read : Json → Decoded α) :
    Decoded α :=
  ((Json.under? members key).map fun j => under (.key key) (read j)).getD (.ok default)

/-- A member that can only have one value. -/
def constant (members : Json.Members) (key value : String) : Decoded Unit :=
  optional members key () fun j =>
    match j with
    | .str s => if s = .whole value then .ok () else reject (.notMember [value])
    | _ => reject (.notMember [value])

def object (name : String) (read : Json.Members → Decoded α) : Json → Decoded α
  | .obj members => read members
  | _ => reject (.notModel name)

end Decoded

open Decoded

namespace TypeRef

def tags : List String := ["named", "list", "non_null"]

/-- How many references may stand in each other. -/
def maxDepth : Nat := 255

/-- A reference with room for a number of references, itself included. -/
def decodeWithin (room : Nat) (j : Json) : Decoded TypeRef :=
  match j with
  | .obj members =>
    match Json.under? members "kind", room with
    | none, _ => reject .noTag
    | some (.str (.whole "named")), _ + 1 =>
      under (.key "named") (named <$> required members "name" string)
    | some (.str (.whole "list")), room + 1 =>
      under (.key "list") (list <$> required members "item_type" (decodeWithin room))
    | some (.str (.whole "non_null")), room + 1 =>
      under (.key "non_null") (nonNull <$> required members "inner_type" (decodeWithin room))
    | some (.str (.whole tag)), 0 =>
      if tag ∈ tags then under (.key tag) (reject .tooDeep) else reject (.unknownTag tag tags)
    | some other, _ => reject (.unknownTag (Value.ofJson other).display.visible tags)
  | _ => reject .notAttributes

def decode (j : Json) : Decoded TypeRef := decodeWithin maxDepth j

end TypeRef

def ReferencedKind.ofText? (s : String) : Option ReferencedKind := all.find? fun k => k.text == s

def ReferencedKind.decode : Json → Decoded ReferencedKind
  | .str (.whole s) => ((ofText? s).map .ok).getD (reject (.notChoice (all.map text)))
  | _ => reject (.notChoice (all.map text))

def Field.decode : Json → Decoded Field :=
  object "FieldDeclaration" fun members =>
    (fun (name, type, kind) => ⟨name, type, kind⟩) <$>
      both (required members "name" string)
        (both (required members "type" TypeRef.decode)
          (optional members "referenced_kind" .unknown ReferencedKind.decode))

def RecordDeclaration.decode (kind name : String) : Json → Decoded RecordDeclaration :=
  object name fun members =>
    (fun ((), name, fields, interfaces) => ⟨name, fields, interfaces⟩) <$>
      both (constant members "kind" kind)
        (both (required members "name" string)
          (both (optional members "fields" [] (list Field.decode))
            (optional members "interfaces" [] (list string))))

def InputDeclaration.decode : Json → Decoded InputDeclaration :=
  object "InputObjectDeclaration" fun members =>
    (fun ((), name, fields) => ⟨name, fields⟩) <$>
      both (constant members "kind" "input")
        (both (required members "name" string)
          (optional members "fields" [] (list Field.decode)))

def UnionDeclaration.decode : Json → Decoded UnionDeclaration :=
  object "UnionDeclaration" fun members =>
    (fun ((), name, unionMembers) => ⟨name, unionMembers⟩) <$>
      both (constant members "kind" "union")
        (both (required members "name" string) (optional members "members" [] (list string)))

def EnumDeclaration.decode : Json → Decoded EnumDeclaration :=
  object "EnumDeclaration" fun members =>
    (fun ((), name, values) => ⟨name, values⟩) <$>
      both (constant members "kind" "enum")
        (both (required members "name" string) (optional members "values" [] (list string)))

def ScalarDeclaration.decode : Json → Decoded ScalarDeclaration :=
  object "ScalarDeclaration" fun members =>
    (fun ((), name) => ⟨name⟩) <$>
      both (constant members "kind" "scalar") (required members "name" string)

namespace Declaration

def tags : List String := ["object", "interface", "input", "union", "enum", "scalar"]

/-- The kind of a declaration selects how the rest is read. -/
def decode (j : Json) : Decoded Declaration :=
  match j with
  | .obj members =>
    match Json.under? members "kind" with
    | none => reject .noTag
    | some (.str (.whole "object")) =>
      under (.key "object") (object <$> RecordDeclaration.decode "object" "ObjectDeclaration" j)
    | some (.str (.whole "interface")) =>
      under (.key "interface")
        (interface <$> RecordDeclaration.decode "interface" "InterfaceDeclaration" j)
    | some (.str (.whole "input")) => under (.key "input") (input <$> InputDeclaration.decode j)
    | some (.str (.whole "union")) => under (.key "union") (union <$> UnionDeclaration.decode j)
    | some (.str (.whole "enum")) => under (.key "enum") (enum <$> EnumDeclaration.decode j)
    | some (.str (.whole "scalar")) => under (.key "scalar") (scalar <$> ScalarDeclaration.decode j)
    | some other => reject (.unknownTag (Value.ofJson other).display.visible tags)
  | _ => reject .notAttributes

end Declaration

def Declarations.decode : Json → Decoded Declarations :=
  object "SchemaDeclarations" fun members =>
    (fun (objects, inputs, interfaces, unions, enums, scalars) =>
      ⟨objects, inputs, interfaces, unions, enums, scalars⟩) <$>
      both (optional members "objects" []
          (list (RecordDeclaration.decode "object" "ObjectDeclaration")))
        (both (optional members "inputs" [] (list InputDeclaration.decode))
          (both (optional members "interfaces" []
              (list (RecordDeclaration.decode "interface" "InterfaceDeclaration")))
            (both (optional members "unions" [] (list UnionDeclaration.decode))
              (both (optional members "enums" [] (list EnumDeclaration.decode))
                (optional members "scalars" [] (list ScalarDeclaration.decode))))))

end CheckedModels
