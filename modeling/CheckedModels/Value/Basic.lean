import CheckedModels.Json.Basic

/-! Values that descriptors accept and make: plain data, and instances of models. -/
namespace CheckedModels

/-- A value without parts; such values are the keys of dictionaries. -/
inductive Scalar where
  | null
  | bool (b : Bool)
  | int (n : Int)
  | float (x : Float)
  | str (s : Text)
deriving Inhabited

/-- Whether this is text with a half of a surrogate pair that stands alone. -/
def Scalar.isBroken : Scalar → Bool
  | str (.broken _ _) => true
  | _ => false

/-- An instance knows its class, by the key and the name of the model and by the attribute of each
property, and holds a value under each attribute. A serial number marks an instance that existed before,
so that it can be told from an equal one. -/
inductive Value where
  | scalar (s : Scalar)
  | list (items : List Value)
  | tuple (items : List Value)
  | dict (entries : List (Scalar × Value))
  | instance (serial : Option Nat) (model name : String) (attributes : List (String × String))
    (held : List (String × Value))
deriving Inhabited

namespace Value

@[match_pattern] abbrev null : Value := scalar .null
@[match_pattern] abbrev str (s : String) : Value := scalar (.str (.whole s))

mutual

def ofJson : Json → Value
  | .null => null
  | .bool b => scalar (.bool b)
  | .int n => scalar (.int n)
  | .float x => scalar (.float x)
  | .str s => scalar (.str s)
  | .arr items => list (ofJsonItems items)
  | .obj members => dict (ofJsonMembers members)

def ofJsonItems : List Json → List Value
  | [] => []
  | j :: rest => ofJson j :: ofJsonItems rest

def ofJsonMembers : List (Text × Json) → List (Scalar × Value)
  | [] => []
  | (key, j) :: rest => (.str key, ofJson j) :: ofJsonMembers rest

end

def under? (entries : List (Scalar × Value)) (key : String) : Option Value :=
  match entries with
  | [] => none
  | (.str k, v) :: rest => if k = .whole key then some v else under? rest key
  | _ :: rest => under? rest key

theorem sizeOf_under {entries : List (Scalar × Value)} {key : String} {v : Value}
    (h : under? entries key = some v) : sizeOf v < sizeOf entries := by
  induction entries with
  | nil => simp [under?] at h
  | cons e rest ih =>
    obtain ⟨k, w⟩ := e
    have tail (h : under? rest key = some v) : sizeOf v < sizeOf ((k, w) :: rest) := by
      have := ih h
      simp
      omega
    cases k with
    | str k =>
      by_cases hk : k = .whole key
      · obtain rfl : w = v := by simpa [under?, hk] using h
        simp
        omega
      · exact tail (by simpa [under?, hk] using h)
    | null | bool | int | float => exact tail (by simpa [under?] using h)

/-- The items of a collection that has no keys. Those of an instance are pairs of an attribute and what
it holds. -/
def items? : Value → Option (List Value)
  | list items | tuple items => some items
  | .instance _ _ _ _ held => some (held.map fun h => tuple [str h.1, h.2])
  | _ => none

theorem sizeOf_held {held : List (String × Value)} {h : String × Value} (hmem : h ∈ held)
    (serial : Option Nat) (model name : String) (attributes : List (String × String)) :
    sizeOf h.2 < sizeOf (Value.instance serial model name attributes held) := by
  have := List.sizeOf_lt_of_mem hmem
  obtain ⟨name, v⟩ := h
  simp at this ⊢
  omega

/-- The pair of an attribute and what it holds is smaller than the instance. -/
theorem sizeOf_pair {held : List (String × Value)} {h : String × Value} (hmem : h ∈ held)
    (serial : Option Nat) (model name : String) (attributes : List (String × String)) :
    sizeOf (tuple [str h.1, h.2]) < sizeOf (Value.instance serial model name attributes held) := by
  have hheld : sizeOf h + 2 ≤ sizeOf held := by
    clear serial model name attributes
    induction held with
    | nil => cases hmem
    | cons e rest ih =>
      rcases List.mem_cons.mp hmem with rfl | htail
      · have hrest : 0 < sizeOf rest := by
          cases rest with
          | nil => simp
          | cons =>
            rw [List.cons.sizeOf_spec]
            omega
        simp
        omega
      · have := ih htail
        simp
        omega
  have hclass : 4 ≤ sizeOf serial + sizeOf model + sizeOf name + sizeOf attributes := by
    cases serial <;> cases model <;> cases name <;> cases attributes <;> simp <;> omega
  obtain ⟨name, v⟩ := h
  simp at hheld ⊢
  omega

theorem sizeOf_item {v x : Value} {items : List Value} (h : v.items? = some items) (hx : x ∈ items) :
    sizeOf x < sizeOf v := by
  cases v with
  | scalar | dict => cases h
  | list given | tuple given =>
    obtain rfl := Option.some.inj h
    have := List.sizeOf_lt_of_mem hx
    simp
    omega
  | «instance» serial model name attributes held =>
    obtain rfl := Option.some.inj h
    obtain ⟨e, he, rfl⟩ := List.mem_map.mp hx
    exact sizeOf_pair he serial model name attributes

theorem sizeOf_value {entries : List (Scalar × Value)} {e : Scalar × Value} (h : e ∈ entries) :
    sizeOf e.2 < sizeOf (dict entries) := by
  have := List.sizeOf_lt_of_mem h
  obtain ⟨key, v⟩ := e
  simp at this ⊢
  omega

end Value

end CheckedModels
