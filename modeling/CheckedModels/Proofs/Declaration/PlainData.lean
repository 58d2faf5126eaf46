import CheckedModels.Declaration.Decode
import CheckedModels.Proofs.Declaration.Category
import Mathlib.Logic.Function.Iterate

/-! Declarations written as plain data and read back. Only the depth of type references is limited. -/
namespace CheckedModels

namespace Json

def named (entries : Entries Json) : Members := entries.map fun e => (.whole e.1, e.2)

theorem under?_named (entries : Entries Json) (key : String) :
    under? (named entries) key = entries.lookup key := by
  induction entries with
  | nil => rfl
  | cons e rest ih =>
    obtain ⟨k, j⟩ := e
    simp only [under?, named, List.map_cons, List.lookup_cons] at ih ⊢
    by_cases h : key = k
    · simp [h]
    · rw [beq_false_of_ne h, beq_false_of_ne fun heq => h (Text.whole.inj heq)]
      exact ih

def texts (l : List String) : Json := .arr (l.map fun s => .str (.whole s))

end Json

namespace Decoded

/-- What was written is read back if it meets `p`. Otherwise it is refused as too deep, and for no other
reason. -/
inductive Recalls {α : Type} (p : Prop) (a : α) : Decoded α → Prop where
  | same (h : p) : Recalls p a (.ok a)
  | deep (h : ¬ p) {issues : List Issue} (hne : issues ≠ [])
    (hall : ∀ i ∈ issues, ∃ location, i = .plain location .tooDeep) : Recalls p a (.error issues)

variable {α β : Type} {p q : Prop} {a : α} {b : β} {j : Json} {read : Json → Decoded α}

namespace Recalls

variable {x : Decoded α} {y : Decoded β}

theorem congr (h : Recalls p a x) (hpq : p ↔ q) : Recalls q a x := by
  cases h with
  | same hp => exact .same (hpq.mp hp)
  | deep hp hne hall => exact .deep (fun hq => hp (hpq.mpr hq)) hne hall

theorem map (h : Recalls p a x) (f : α → β) : Recalls p (f a) (f <$> x) := by
  cases h with
  | same hp => exact .same hp
  | deep hp hne hall => exact .deep hp hne hall

theorem under (h : Recalls p a x) (step : Step) : Recalls p a (Decoded.under step x) := by
  cases h with
  | same hp => exact .same hp
  | deep hp hne hall =>
    refine .deep hp (by simpa using hne) fun i hi => ?_
    obtain ⟨inner, hinner, rfl⟩ := List.mem_map.mp hi
    obtain ⟨location, rfl⟩ := hall inner hinner
    exact ⟨step :: location, rfl⟩

theorem both (hx : Recalls p a x) (hy : Recalls q b y) : Recalls (p ∧ q) (a, b) (Decoded.both x y) := by
  cases hx with
  | same hp =>
    cases hy with
    | same hq => exact .same ⟨hp, hq⟩
    | deep hq hne hall => exact .deep (fun h => hq h.2) hne hall
  | deep hp hne hall =>
    cases hy with
    | same hq => exact .deep (fun h => hp h.1) hne hall
    | deep hq _ hmore =>
      refine .deep (fun h => hp h.1) (by simp [hne]) fun i hi => ?_
      exact (List.mem_append.mp hi).elim (hall i) (hmore i)

theorem eq_ok (h : Recalls p a x) (hp : p) : x = .ok a := by
  cases h with
  | same => rfl
  | deep hnot => exact absurd hp hnot

theorem exists_issues (h : Recalls p a x) (hp : ¬ p) : ∃ issues, x = .error issues ∧ issues ≠ [] ∧
    ∀ i ∈ issues, ∃ location, i = .plain location .tooDeep := by
  cases h with
  | same hyes => exact absurd hyes hp
  | deep _ hne hall => exact ⟨_, rfl, hne, hall⟩

end Recalls

theorem recalls_required (entries : Entries Json) (key : String) (hj : entries.lookup key = some j)
    (h : Recalls p a (read j)) : Recalls p a (required (Json.named entries) key read) := by
  rw [required, Json.under?_named, hj]
  exact h.under _

theorem recalls_optional (entries : Entries Json) (key : String) (default : α)
    (hj : entries.lookup key = some j)
    (h : Recalls p a (read j)) : Recalls p a (optional (Json.named entries) key default read) := by
  rw [optional, Json.under?_named, hj]
  exact h.under _

theorem recalls_constant (entries : Entries Json) (key : String) {value : String}
    (hj : entries.lookup key = some (.str value)) :
    Recalls True () (constant (Json.named entries) key value) := by
  refine recalls_optional entries key () hj ?_
  simp only [if_true]
  exact .same trivial

theorem recalls_string (s : String) : Recalls True s (string (.str s)) := .same trivial

theorem recalls_items {write : α → Json} {P : α → Prop} {xs : List α}
    (h : ∀ x ∈ xs, Recalls (P x) x (read (write x))) (i : Nat) :
    Recalls (∀ x ∈ xs, P x) xs (items read i (xs.map write)) := by
  induction xs generalizing i with
  | nil => exact .same (by simp)
  | cons x rest ih =>
    have hrest := ih (fun y hy => h y (List.mem_cons_of_mem _ hy)) (i + 1)
    have hboth := ((h x List.mem_cons_self).under (.index i)).both hrest
    exact (hboth.map fun q => q.1 :: q.2).congr List.forall_mem_cons.symm

theorem recalls_list {write : α → Json} {P : α → Prop} {xs : List α}
    (h : ∀ x ∈ xs, Recalls (P x) x (read (write x))) :
    Recalls (∀ x ∈ xs, P x) xs (list read (.arr (xs.map write))) := recalls_items h 0

theorem recalls_texts (l : List String) : Recalls True l (list string (Json.texts l)) :=
  (recalls_list fun s _ => recalls_string s).congr (by simp)

end Decoded

open Decoded

namespace TypeRef

/-- A reference as plain data: which of the three it is, and what it is made of. -/
def toData : TypeRef → Json
  | named name => .record [("kind", .str "named"), ("name", .str name)]
  | list item => .record [("kind", .str "list"), ("item_type", item.toData)]
  | nonNull inner => .record [("kind", .str "non_null"), ("inner_type", inner.toData)]

/-- How many references stand in each other, the outermost included. -/
def depth : TypeRef → Nat
  | named _ => 1
  | list item => item.depth + 1
  | nonNull inner => inner.depth + 1

/-- A reference is read back if there is room for all that stand in it. -/
theorem recalls_decodeWithin (t : TypeRef) (room : Nat) :
    Recalls (t.depth ≤ room) t (decodeWithin room t.toData) := by
  induction t generalizing room with
  | named name =>
    cases room with
    | zero => exact .deep (by simp [depth]) (by simp) (by simp [Issue.under])
    | succ room =>
      have hname : Recalls True name (required _ "name" string) :=
        recalls_required [("kind", .str "named"), ("name", .str name)] _ rfl (recalls_string name)
      exact ((hname.map named).under (.key "named")).congr (by simp [depth])
  | list item ih =>
    cases room with
    | zero => exact .deep (by simp [depth]) (by simp) (by simp [Issue.under])
    | succ room =>
      have hitem : Recalls (item.depth ≤ room) item (required _ "item_type" (decodeWithin room)) :=
        recalls_required [("kind", .str "list"), ("item_type", item.toData)] _ rfl (ih room)
      exact ((hitem.map list).under (.key "list")).congr (by simp [depth])
  | nonNull inner ih =>
    cases room with
    | zero => exact .deep (by simp [depth]) (by simp) (by simp [Issue.under])
    | succ room =>
      have hinner : Recalls (inner.depth ≤ room) inner (required _ "inner_type" (decodeWithin room)) :=
        recalls_required [("kind", .str "non_null"), ("inner_type", inner.toData)] _ rfl (ih room)
      exact ((hinner.map nonNull).under (.key "non_null")).congr (by simp [depth])

theorem depth_list_iterate (t : TypeRef) (n : Nat) : (list^[n] t).depth = t.depth + n := by
  induction n generalizing t with
  | zero => rfl
  | succ n ih => rw [Function.iterate_succ_apply, ih, depth, Nat.add_right_comm, Nat.add_assoc]

end TypeRef

theorem ReferencedKind.ofText?_text (k : ReferencedKind) : ofText? k.text = some k := by
  cases k <;> decide

namespace Field

/-- The members of a field as plain data. -/
def parts (f : Field) : Entries Json :=
  [("name", .str f.name), ("type", f.type.toData), ("referenced_kind", .str f.kind.text)]

def toData (f : Field) : Json := .record f.parts

/-- The references of the type are no more than may stand in each other. -/
def Shallow (f : Field) : Prop := f.type.depth ≤ TypeRef.maxDepth

theorem recalls_decode (f : Field) : Recalls f.Shallow f (decode f.toData) := by
  have hread : Recalls True f.kind (ReferencedKind.decode (.str f.kind.text)) := by
    rw [ReferencedKind.decode, ReferencedKind.ofText?_text]
    exact .same trivial
  have hname := recalls_required f.parts "name" rfl (recalls_string f.name)
  have htype := recalls_required f.parts "type" rfl (f.type.recalls_decodeWithin TypeRef.maxDepth)
  have hkind := recalls_optional f.parts "referenced_kind" .unknown rfl hread
  have hall := (hname.both (htype.both hkind)).map fun q => (⟨q.1, q.2.1, q.2.2⟩ : Field)
  exact hall.congr (by simp [Shallow])

theorem recalls_fields (fields : List Field) :
    Recalls (∀ f ∈ fields, f.Shallow) fields (list decode (.arr (fields.map toData))) :=
  recalls_list fun f _ => f.recalls_decode

end Field

/-- The members of a declaration as plain data: its kind, its name, and what else it has. -/
def headed (kind name : String) (parts : Entries Json) : Entries Json :=
  ("kind", .str kind) :: ("name", .str name) :: parts

section Headed

variable (kind name : String) (parts : Entries Json)

theorem recalls_kind : Recalls True () (constant (Json.named (headed kind name parts)) "kind" kind) :=
  recalls_constant _ _ rfl

theorem recalls_name :
    Recalls True name (required (Json.named (headed kind name parts)) "name" string) :=
  recalls_required _ _ rfl (recalls_string name)

/-- With the kind and the name of a declaration all else is read back that would be without them. -/
theorem recalls_headed {α : Type} {p : Prop} {a : α} {x : Decoded α} (h : Recalls p a x) :
    Recalls p ((), name, a) (both (constant (Json.named (headed kind name parts)) "kind" kind)
      (both (required (Json.named (headed kind name parts)) "name" string) x)) :=
  ((recalls_kind kind name parts).both ((recalls_name kind name parts).both h)).congr (by simp)

end Headed

namespace Declaration

/-- What a declaration has beside its kind and its name. -/
def parts : Declaration → Entries Json
  | object d | interface d =>
    [("fields", .arr (d.fields.map Field.toData)), ("interfaces", Json.texts d.interfaces)]
  | input d => [("fields", .arr (d.fields.map Field.toData))]
  | union d => [("members", Json.texts d.members)]
  | enum d => [("values", Json.texts d.values)]
  | scalar _ => []

def toData (d : Declaration) : Json := .record (headed d.kind.text d.name d.parts)

def Shallow (d : Declaration) : Prop := ∀ f ∈ d.fields, f.Shallow

end Declaration

/-- Objects and interfaces are read alike, each under its own kind. -/
theorem RecordDeclaration.recalls_decode (d : RecordDeclaration) (kind name : String) :
    Recalls (∀ f ∈ d.fields, f.Shallow) d
      (RecordDeclaration.decode kind name (.record (headed kind d.name (Declaration.object d).parts))) := by
  let parts := (Declaration.object d).parts
  let entries := headed kind d.name parts
  have hfields := recalls_optional entries "fields" [] rfl (Field.recalls_fields d.fields)
  have hinterfaces := recalls_optional entries "interfaces" [] rfl (recalls_texts d.interfaces)
  have hall := (recalls_headed kind d.name parts (hfields.both hinterfaces)).map
    fun q => (⟨q.2.1, q.2.2.1, q.2.2.2⟩ : RecordDeclaration)
  exact hall.congr (by simp)

theorem InputDeclaration.recalls_decode (d : InputDeclaration) :
    Recalls (∀ f ∈ d.fields, f.Shallow) d (InputDeclaration.decode (Declaration.input d).toData) := by
  let entries := headed "input" d.name (Declaration.input d).parts
  have hfields := recalls_optional entries "fields" [] rfl (Field.recalls_fields d.fields)
  exact (recalls_headed "input" d.name _ hfields).map
    fun q => (⟨q.2.1, q.2.2⟩ : InputDeclaration)

theorem UnionDeclaration.recalls_decode (d : UnionDeclaration) :
    Recalls True d (UnionDeclaration.decode (Declaration.union d).toData) := by
  let entries := headed "union" d.name (Declaration.union d).parts
  have hmembers := recalls_optional entries "members" [] rfl (recalls_texts d.members)
  exact (recalls_headed "union" d.name _ hmembers).map
    fun q => (⟨q.2.1, q.2.2⟩ : UnionDeclaration)

theorem EnumDeclaration.recalls_decode (d : EnumDeclaration) :
    Recalls True d (EnumDeclaration.decode (Declaration.enum d).toData) := by
  let entries := headed "enum" d.name (Declaration.enum d).parts
  have hvalues := recalls_optional entries "values" [] rfl (recalls_texts d.values)
  exact (recalls_headed "enum" d.name _ hvalues).map
    fun q => (⟨q.2.1, q.2.2⟩ : EnumDeclaration)

theorem ScalarDeclaration.recalls_decode (d : ScalarDeclaration) :
    Recalls True d (ScalarDeclaration.decode (Declaration.scalar d).toData) := by
  have hall := ((recalls_kind "scalar" d.name []).both (recalls_name "scalar" d.name [])).map
    fun q => (⟨q.2⟩ : ScalarDeclaration)
  exact hall.congr (by simp)

/-- The kind that is written selects the way it is read. -/
theorem Declaration.recalls_decode (d : Declaration) : Recalls d.Shallow d (decode d.toData) := by
  cases d with
  | object d => exact ((d.recalls_decode "object" "ObjectDeclaration").map object).under (.key "object")
  | interface d =>
    exact ((d.recalls_decode "interface" "InterfaceDeclaration").map interface).under (.key "interface")
  | input d => exact (d.recalls_decode.map input).under (.key "input")
  | union d => exact ((d.recalls_decode.map union).under (.key "union")).congr (by simp [Shallow, fields])
  | enum d => exact ((d.recalls_decode.map enum).under (.key "enum")).congr (by simp [Shallow, fields])
  | scalar d =>
    exact ((d.recalls_decode.map scalar).under (.key "scalar")).congr (by simp [Shallow, fields])

namespace Declarations

/-- The members of a schema as plain data: each category under its own name. -/
def parts (ds : Declarations) : Entries Json :=
  [("objects", .arr ((ds.category .object).map Declaration.toData)),
    ("inputs", .arr ((ds.category .input).map Declaration.toData)),
    ("interfaces", .arr ((ds.category .interface).map Declaration.toData)),
    ("unions", .arr ((ds.category .union).map Declaration.toData)),
    ("enums", .arr ((ds.category .enum).map Declaration.toData)),
    ("scalars", .arr ((ds.category .scalar).map Declaration.toData))]

def toData (ds : Declarations) : Json := .record ds.parts

def Shallow (ds : Declarations) : Prop := ∀ d ∈ ds.all, d.Shallow

theorem recalls_category {α : Type} {P : α → Prop} {read : Json → Decoded α} (ds : Declarations)
    (key : String) (xs : List α) (make : α → Declaration)
    (hkey : ds.parts.lookup key = some (.arr ((xs.map make).map Declaration.toData)))
    (h : ∀ x, Recalls (P x) x (read (make x).toData)) :
    Recalls (∀ x ∈ xs, P x) xs (optional (Json.named ds.parts) key [] (list read)) := by
  rw [List.map_map] at hkey
  exact recalls_optional ds.parts key [] hkey (recalls_list fun x _ => h x)

theorem recalls_decode (ds : Declarations) : Recalls ds.Shallow ds (decode ds.toData) := by
  have hobjects := ds.recalls_category "objects" ds.objects .object rfl
    fun d => d.recalls_decode "object" "ObjectDeclaration"
  have hinputs := ds.recalls_category "inputs" ds.inputs .input rfl fun d => d.recalls_decode
  have hinterfaces := ds.recalls_category "interfaces" ds.interfaces .interface rfl
    fun d => d.recalls_decode "interface" "InterfaceDeclaration"
  have hunions := ds.recalls_category "unions" ds.unions .union rfl fun d => d.recalls_decode
  have henums := ds.recalls_category "enums" ds.enums .enum rfl fun d => d.recalls_decode
  have hscalars := ds.recalls_category "scalars" ds.scalars .scalar rfl fun d => d.recalls_decode
  have hread := hobjects.both (hinputs.both (hinterfaces.both (hunions.both (henums.both hscalars))))
  have hall := hread.map fun q =>
    (⟨q.1, q.2.1, q.2.2.1, q.2.2.2.1, q.2.2.2.2.1, q.2.2.2.2.2⟩ : Declarations)
  refine hall.congr ?_
  simp [Shallow, all, or_imp, forall_and, Declaration.Shallow, Declaration.fields]

/-- A declaration goes to the end of its own category, and the others stay as they are. -/
theorem category_add_kind (target : Declarations) (d : Declaration) :
    (target.add d).category d.kind = target.category d.kind ++ [d] ∧
      ∀ k ≠ d.kind, (target.add d).category k = target.category k := by
  refine ⟨by simp [category_add], fun k hk => ?_⟩
  simp [category_add, beq_false_of_ne hk.symm]

/-- A schema written as plain data is read back as it was, and so is each declaration on its own, which
then goes to the end of its category. Only type references that stand in one another more often than there
is room for are refused, and then for that reason alone. -/
theorem decode_toData (ds : Declarations) :
    (ds.Shallow → decode ds.toData = .ok ds) ∧
    (¬ ds.Shallow → ∃ issues, decode ds.toData = .error issues ∧ issues ≠ [] ∧
      ∀ i ∈ issues, ∃ location, i = .plain location .tooDeep) ∧
    ∀ d ∈ ds.all,
      (d.Shallow → ∀ target : Declarations, ∃ added,
        target.add <$> Declaration.decode d.toData = .ok added ∧
        added.category d.kind = target.category d.kind ++ [d] ∧
        ∀ k ≠ d.kind, added.category k = target.category k) ∧
      (¬ d.Shallow → ∃ issues, Declaration.decode d.toData = .error issues ∧ issues ≠ [] ∧
        ∀ i ∈ issues, ∃ location, i = .plain location .tooDeep) := by
  refine ⟨ds.recalls_decode.eq_ok, ds.recalls_decode.exists_issues, fun d _ => ⟨fun hd target => ?_, ?_⟩⟩
  · refine ⟨target.add d, ?_, target.category_add_kind d⟩
    rw [d.recalls_decode.eq_ok hd]
    rfl
  · exact d.recalls_decode.exists_issues

/-- One object with one field, whose type is lists within lists. -/
def nestedLists (n : Nat) : Declarations :=
  { objects := [{ name := "T", fields := [{ name := "f", type := TypeRef.list^[n] (.named "Int") }] }] }

theorem shallow_nestedLists (n : Nat) : (nestedLists n).Shallow ↔ n + 1 ≤ TypeRef.maxDepth := by
  simp [Shallow, all, nestedLists, Declaration.Shallow, Declaration.fields, Field.Shallow,
    TypeRef.depth_list_iterate, TypeRef.depth, Nat.add_comm]

/-- As many lists as fit. -/
theorem decode_toData_room :
    (nestedLists 254).Shallow ∧ decode (nestedLists 254).toData = .ok (nestedLists 254) :=
  have hroom : (nestedLists 254).Shallow := (shallow_nestedLists 254).mpr (by decide)
  ⟨hroom, (decode_toData _).1 hroom⟩

/-- With one more list nothing is read. -/
theorem decode_toData_crowded : decode (nestedLists 255).toData ≠ .ok (nestedLists 255) := by
  have hcrowded : ¬ (nestedLists 255).Shallow := fun h => absurd ((shallow_nestedLists 255).mp h) (by decide)
  obtain ⟨issues, hissues, -⟩ := (recalls_decode _).exists_issues hcrowded
  simp [hissues]

end Declarations

end CheckedModels
