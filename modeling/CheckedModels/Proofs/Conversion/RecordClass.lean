import CheckedModels.Proofs.Value.Record

/-! A class by the names of the schema: its fields are given under the names of the properties, however
they are called, and what it builds has the properties under these names. -/
namespace CheckedModels

namespace Model

def omitted (d : Descriptor) : Outcome :=
  if d.isMaybeNull then .ok .null else Outcome.reject .missing

def build (m : Model) (key : String) (values : List Value) : Value :=
  .record none key m.name (m.properties.keys.zip values)

variable (m : Model)

/-- An alias is where it takes one to be given under the name of the property. -/
theorem key_field (p : String × Descriptor) : (m.field p).key = p.1 := by
  unfold ClassField.key field
  dsimp only
  split
  · assumption
  · rfl

theorem omitted_field (p : String × Descriptor) : (m.field p).omitted = omitted p.2 := by
  unfold ClassField.omitted field omitted
  dsimp only
  split <;> simp_all

theorem keys_toClass : m.toClass.fields.map ClassField.key = m.properties.keys := by
  rw [toClass, List.map_map]
  exact List.map_congr_left fun p _ => m.key_field p

theorem names_toClass : m.toClass.fields.map ClassField.name = m.properties.keys.map m.attributeName := by
  rw [toClass, List.map_map, Entries.keys, List.map_map]
  rfl

/-- What the class builds has the values under the names of the properties. -/
theorem build_toClass {values : List Value} (h : values.length = m.properties.length) (key : String) :
    m.toClass.build key values = m.build key values := by
  have hkeys : Entries.keys (m.properties.keys.zip values) = m.properties.keys := by
    refine List.map_fst_zip ?_
    simp [Entries.keys, h]
  rw [RecordClass.build, build, Value.record, names_toClass, hkeys, List.zip_map_left]
  rfl

end Model

end CheckedModels
