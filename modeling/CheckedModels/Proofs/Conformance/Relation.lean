import CheckedModels.Proofs.Compile.Supply
import CheckedModels.Proofs.Conversion.Acceptance
import CheckedModels.Proofs.Declaration.Kinds

/-! Which values conform to a declaration, told from the schema alone. -/
namespace CheckedModels

/-- Which values the names of built-in scalars take. -/
def TakesBuiltin : String → Value → Prop
  | "String", v | "ID", v => ∃ t, v = .scalar (.str t)
  | "Int", v | "Float", v => (∃ n, v = .scalar (.int n)) ∨ ∃ x, v = .scalar (.float x)
  | "Boolean", v => ∃ b, v = .scalar (.bool b)
  | _, _ => False

namespace Declarations

/-- A type name is known if it is built in or declared. -/
def knows (ds : Declarations) (name : String) : Bool :=
  (builtinKind? name).isSome || (ds.find? name).isSome

/-- The fields of a declaration under their names: those of the interfaces that it lists, and then its
own, which win. Fields of unknown types are left out. -/
def composedFields (ds : Declarations) (d : Declaration) : Entries Field :=
  Entries.ofPairs ((Scope.listedFields { declarations := ds } d).filter fun e => ds.knows e.2.typeName)

end Declarations

mutual

/-- A value conforms to a declaration. `ids` tells the identifier field of each record. -/
inductive Conforms (ds : Declarations) (ids : String → Option String) : Declaration → Value → Prop where
  | scalar (d : ScalarDeclaration) (v : Value) : Conforms ds ids (.scalar d) v
  | enum {d : EnumDeclaration} {x : String} (h : x ∈ d.values) : Conforms ds ids (.enum d) (.str x)
  | union {u : UnionDeclaration} {d : Declaration} {v : Value} (hm : d.name ∈ u.members)
    (hd : ds.findKind? .object d.name = some d) (h : Conforms ds ids d v) : Conforms ds ids (.union u) v
  | record {d : Declaration} {entries : List (Scalar × Value)} (hd : d.isModel = true)
    (keys : ∀ e ∈ entries, ∃ name ∈ (ds.composedFields d).keys, e.1 = .str (.whole name))
    (identifier : ∀ name, ids d.name = some name →
      ∃ t, Value.under? entries name = some (.scalar (.str t)))
    (absent : ∀ e ∈ ds.composedFields d, ids d.name ≠ some e.1 → Value.under? entries e.1 = none →
      e.2.type.isNonNull = false)
    (present : ∀ e ∈ ds.composedFields d, ids d.name ≠ some e.1 →
      ∀ x, Value.under? entries e.1 = some x → e.2.type.Admits (Fits ds ids) true x) :
    Conforms ds ids d (.dict entries)

/-- A value fits the name of a type in a field. A built-in name hides a declaration of that name. -/
inductive Fits (ds : Declarations) (ids : String → Option String) : String → Value → Prop where
  | builtin {name : String} {v : Value} (h : TakesBuiltin name v) : Fits ds ids name v
  | declared {d : Declaration} {v : Value} (hn : builtinKind? d.name = none)
    (hd : ds.find? d.name = some d) (h : Conforms ds ids d v) : Fits ds ids d.name v

end

theorem builtin?_takes {name : String} {d : Descriptor} (h : builtin? name = some d) :
    ∃ b, d = .basic b ∧ ∀ v, b.Takes v ↔ TakesBuiltin name v := by
  unfold builtin? at h
  split at h
  case h_6 => simp at h
  all_goals exact ⟨_, (Option.some.inj h).symm, fun v => by simp [Basic.Takes, TakesBuiltin]⟩

theorem isSome_builtin? (name : String) : (builtin? name).isSome = (builtinKind? name).isSome := by
  unfold builtin? builtinKind?
  split <;> simp

theorem not_takesBuiltin {name : String} (h : builtinKind? name = none) (v : Value) :
    ¬ TakesBuiltin name v := by
  unfold builtinKind? at h
  unfold TakesBuiltin
  split at h <;> simp_all

section

variable {ds : Declarations} {ids : String → Option String} {v : Value}

theorem fits_builtin_iff {name : String} (h : (builtinKind? name).isSome = true) :
    Fits ds ids name v ↔ TakesBuiltin name v := by
  constructor
  · intro hf
    cases hf with
    | builtin h => exact h
    | declared hn _ _ => simp [hn] at h
  · exact .builtin

theorem fits_declared_iff {d : Declaration} (hn : builtinKind? d.name = none)
    (hd : ds.find? d.name = some d) : Fits ds ids d.name v ↔ Conforms ds ids d v := by
  constructor
  · intro hf
    generalize hname : d.name = name at hf
    cases hf with
    | builtin h => exact absurd h (not_takesBuiltin (hname ▸ hn) v)
    | declared _ he h =>
      rw [hname] at hd
      exact Option.some.inj (he.symm.trans hd) ▸ h
  · exact .declared hn hd

theorem conforms_enum_iff {e : EnumDeclaration} :
    Conforms ds ids (.enum e) v ↔ ∃ x ∈ e.values, v = .str x := by
  constructor
  · intro h
    cases h with
    | enum h => exact ⟨_, h, rfl⟩
    | record hd => cases hd
  · rintro ⟨x, h, rfl⟩
    exact .enum h

theorem conforms_union_iff {u : UnionDeclaration} : Conforms ds ids (.union u) v ↔
    ∃ d, d.name ∈ u.members ∧ ds.findKind? .object d.name = some d ∧ Conforms ds ids d v := by
  constructor
  · intro h
    cases h with
    | union hm hd h => exact ⟨_, hm, hd, h⟩
    | record hd => cases hd
  · rintro ⟨d, hm, hd, h⟩
    exact .union hm hd h

/-- What a field asks of the entries of a record. -/
def Field.Holds (ds : Declarations) (ids : String → Option String) (record : String)
    (entries : List (Scalar × Value)) (key : String) (f : Field) : Prop :=
  if ids record = some key then ∃ t, Value.under? entries key = some (.scalar (.str t))
  else
    (Value.under? entries key = none → f.type.isNonNull = false) ∧
      ∀ x, Value.under? entries key = some x → f.type.Admits (Fits ds ids) true x

/-- The identifier of a record is one of its fields. -/
theorem conforms_record_iff {d : Declaration} (hd : d.isModel = true)
    (hids : ∀ name, ids d.name = some name → name ∈ (ds.composedFields d).keys) :
    Conforms ds ids d v ↔ ∃ entries, v = .dict entries ∧
      (∀ e ∈ entries, ∃ name ∈ (ds.composedFields d).keys, e.1 = .str (.whole name)) ∧
      ∀ e ∈ ds.composedFields d, e.2.Holds ds ids d.name entries e.1 := by
  constructor
  · intro h
    cases h with
    | scalar | enum | union => cases hd
    | record _ keys identifier absent present =>
      refine ⟨_, rfl, keys, fun e he => ?_⟩
      unfold Field.Holds
      split
      · next hid => exact identifier e.1 hid
      · next hid => exact ⟨absent e he hid, present e he hid⟩
  · rintro ⟨entries, rfl, keys, hfields⟩
    refine .record hd keys (fun name hid => ?_) (fun e he hid => ?_) fun e he hid => ?_
    · obtain ⟨e, he, rfl⟩ := List.mem_map.mp (hids name hid)
      have hholds := hfields e he
      rwa [Field.Holds, if_pos hid] at hholds
    · have hholds := hfields e he
      rw [Field.Holds, if_neg hid] at hholds
      exact hholds.1
    · have hholds := hfields e he
      rw [Field.Holds, if_neg hid] at hholds
      exact hholds.2

end

end CheckedModels
