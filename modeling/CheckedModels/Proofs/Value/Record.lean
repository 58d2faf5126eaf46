import CheckedModels.Conversion.RecordClass
import CheckedModels.Proofs.Value.AttributeName
import CheckedModels.Value.Attribute
import CheckedModels.Value.Snapshot

/-! Instances by the names of the schema: each property is held under its attribute and found there, and
snapshots have the names of the schema again. -/
namespace CheckedModels

namespace Value

def record (serial : Option Nat) (model name : String) (properties : Entries Value) : Value :=
  .instance serial model name (AttributeName.ofKeys properties.keys)
    (properties.map fun p => (AttributeName.ofKey properties.keys p.1, p.2))

variable {serial : Option Nat} {model name key : String} {properties : Entries Value}

theorem record_inj {serial' : Option Nat} {model' name' : String} {properties' : Entries Value} :
    record serial model name properties = record serial' model' name' properties' ↔
      serial = serial' ∧ model = model' ∧ name = name' ∧ properties = properties' := by
  refine ⟨fun h => ?_, fun ⟨hs, hm, hn, hp⟩ => by rw [hs, hm, hn, hp]⟩
  obtain ⟨rfl, rfl, rfl, hnames, hheld⟩ := Value.instance.inj h
  refine ⟨rfl, rfl, rfl, ?_⟩
  have hkeys : properties.keys = properties'.keys := by
    rw [← AttributeName.keys_ofKeys properties.keys, hnames, AttributeName.keys_ofKeys]
  have hvalues : properties.map Prod.snd = properties'.map Prod.snd := by
    simpa [List.map_map, Function.comp_def] using congrArg (List.map Prod.snd) hheld
  calc properties
      = properties.keys.zip (properties.map Prod.snd) := List.zip_of_prod rfl rfl
    _ = properties'.keys.zip (properties'.map Prod.snd) := by rw [hkeys, hvalues]
    _ = properties' := (List.zip_of_prod rfl rfl).symm

theorem attribute?_record (distinct : properties.keys.Nodup) (h : key ∈ properties.keys) :
    (record serial model name properties).attribute? (AttributeName.ofKey properties.keys key) =
      properties.lookup key := by
  have hall : ∀ more : Entries Value, more.keys ⊆ properties.keys →
      (more.map fun p => (AttributeName.ofKey properties.keys p.1, p.2)).lookup
        (AttributeName.ofKey properties.keys key) = more.lookup key := by
    intro more hmore
    induction more with
    | nil => rfl
    | cons p rest ih =>
      have hrest := ih fun k hk => hmore (List.mem_cons_of_mem _ hk)
      have hp : p.1 ∈ properties.keys := hmore List.mem_cons_self
      rw [List.map_cons, Entries.lookup_cons_ite, Entries.lookup_cons_ite, hrest]
      refine ite_congr (propext ⟨fun heq => ?_, fun heq => congrArg _ heq⟩) (fun _ => rfl) fun _ => rfl
      exact (AttributeName.ofKey_injective distinct hp h heq)
  exact hall properties (List.Subset.refl _)

theorem snapshotHeld_eq_map (held : Entries Value) :
    snapshotHeld held = held.map fun h => (h.1, h.2.snapshot) := by
  induction held with
  | nil => rfl
  | cons h rest ih =>
    obtain ⟨name, v⟩ := h
    rw [snapshotHeld, ih, List.map_cons]

theorem snapshot_record (distinct : properties.keys.Nodup) :
    (record serial model name properties).snapshot =
      .dict (properties.map fun p => (.str (.whole p.1), p.2.snapshot)) := by
  have hread : ∀ p ∈ properties, ((snapshotHeld (properties.map fun p =>
      (AttributeName.ofKey properties.keys p.1, p.2))).lookup (AttributeName.ofKey properties.keys p.1)) =
        some p.2.snapshot := by
    intro p hp
    have hattribute : (record serial model name properties).attribute? _ = _ :=
      attribute?_record distinct (Entries.mem_keys_of_mem hp)
    rw [Entries.lookup_of_mem distinct hp] at hattribute
    rw [snapshotHeld_eq_map, Entries.lookup_map]
    exact congrArg (Option.map snapshot) hattribute
  refine congrArg dict (Entries.filterMap_eq_map (AttributeName.keys_ofKeys _) fun p hp held hheld => ?_)
  have hname : held = AttributeName.ofKey properties.keys p.1 := by
    have hlookup := Entries.lookup_of_mem ((AttributeName.keys_ofKeys _).symm ▸ distinct) hheld
    exact Option.some.inj (hlookup.symm.trans (AttributeName.lookup_ofKeys (Entries.mem_keys_of_mem hp)))
  rw [hname, hread p hp]
  rfl

end Value

end CheckedModels
