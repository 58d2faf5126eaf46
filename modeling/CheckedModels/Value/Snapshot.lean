import CheckedModels.Value.Basic

/-! Instances turned back into plain data under the names of the schema. -/
namespace CheckedModels.Value

mutual

/-- Tuples stay as they are, and of an instance each property is read by its attribute. -/
def snapshot : Value → Value
  | scalar s => scalar s
  | list items => list (snapshotItems items)
  | tuple items => tuple items
  | dict entries => dict (snapshotEntries entries)
  | .instance _ _ _ attributes held =>
    let read := snapshotHeld held
    dict (attributes.filterMap fun a => (read.lookup a.2).map fun v => (.str (.whole a.1), v))

def snapshotItems : List Value → List Value
  | [] => []
  | v :: rest => v.snapshot :: snapshotItems rest

def snapshotEntries : List (Scalar × Value) → List (Scalar × Value)
  | [] => []
  | (key, v) :: rest => (key, v.snapshot) :: snapshotEntries rest

def snapshotHeld : List (String × Value) → List (String × Value)
  | [] => []
  | (name, v) :: rest => (name, v.snapshot) :: snapshotHeld rest

end

end CheckedModels.Value
