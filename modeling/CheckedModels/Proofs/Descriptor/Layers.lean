import CheckedModels.Conversion.Wording
import CheckedModels.Proofs.Conformance.Fields
import Mathlib.Data.List.Chain

/-! The null and array layers that the type of a field puts on a descriptor, beside what the field tells
about itself. -/
namespace CheckedModels

def Layer.on : Layer → Descriptor → Descriptor
  | maybeNull, d => .maybeNull d
  | array, d => .array d

/-- No two null layers in a row. -/
def Layer.Apart (layers : List Layer) : Prop :=
  layers.IsChain fun outer inner => outer = .maybeNull → inner ≠ .maybeNull

namespace Descriptor

/-- A descriptor under layers, the outermost first. -/
def under (base : Descriptor) (layers : List Layer) : Descriptor := layers.foldr Layer.on base

/-- The null and array layers of a descriptor, the outermost first. -/
def layers : Descriptor → List Layer
  | maybeNull inner => .maybeNull :: inner.layers
  | array item => .array :: item.layers
  | _ => []

theorem layers_under (base : Descriptor) (layers : List Layer) :
    (base.under layers).layers = layers ++ base.layers := by
  induction layers with
  | nil => rfl
  | cons l layers ih => cases l <;> exact congrArg _ ih

theorem under_right_injective {base : Descriptor} {layers layers' : List Layer}
    (h : base.under layers = base.under layers') : layers = layers' := by
  have hlayers := congrArg Descriptor.layers h
  rwa [layers_under, layers_under, List.append_left_inj] at hlayers

theorem head?_layers_eq_maybeNull_iff {d : Descriptor} :
    d.layers.head? = some .maybeNull ↔ d.isMaybeNull = true := by
  cases d <;> simp [layers, isMaybeNull]

end Descriptor

namespace TypeRef

/-- The layers for a type, the outermost first; `nullable` tells whether no mark stands before it. -/
def layers (nullable : Bool) : TypeRef → List Layer
  | named _ => if nullable then [.maybeNull] else []
  | list item => (if nullable then [.maybeNull] else []) ++ .array :: item.layers true
  | nonNull inner => inner.layers false

variable (t : TypeRef) (nullable : Bool)

theorem wrap_eq_under (base : Descriptor) : t.wrap base nullable = base.under (t.layers nullable) := by
  induction t generalizing nullable with
  | named n => cases nullable <;> rfl
  | list item ih => cases nullable <;> simp [wrap, layers, Descriptor.under, Layer.on, ih true]
  | nonNull inner ih => exact ih false

theorem count_array_layers : (t.layers nullable).count .array = t.listDepth := by
  induction t generalizing nullable with
  | named n => cases nullable <;> rfl
  | list item ih => cases nullable <;> simp [layers, listDepth, ih true]
  | nonNull inner ih => exact ih false

theorem head?_layers_eq_maybeNull_iff :
    (t.layers nullable).head? = some .maybeNull ↔ nullable = true ∧ t.isNonNull = false := by
  induction t generalizing nullable with
  | named n => cases nullable <;> simp [layers, isNonNull]
  | list item ih => cases nullable <;> simp [layers, isNonNull]
  | nonNull inner ih => simpa [layers, isNonNull] using (ih false).not

theorem head?_layers_eq_array_iff : (t.layers nullable).head? = some .array ↔
    (nullable = false ∨ t.isNonNull = true) ∧ 0 < t.listDepth := by
  induction t generalizing nullable with
  | named n => cases nullable <;> simp [layers, listDepth]
  | list item ih => cases nullable <;> simp [layers, isNonNull, listDepth]
  | nonNull inner ih => simpa [layers, isNonNull, listDepth] using ih false

/-- The mark that counts for the name itself is the one right before it. -/
theorem getLast?_layers_eq_maybeNull_iff :
    (t.layers nullable).getLast? = some .maybeNull ↔ t.leafIsNonNull (!nullable) = false := by
  induction t generalizing nullable with
  | named n => cases nullable <;> simp [layers, leafIsNonNull]
  | list item ih =>
    have hlast : (Layer.array :: item.layers true).getLast? = some .maybeNull ↔
        (item.layers true).getLast? = some .maybeNull := by
      cases item.layers true <;> simp [List.getLast?_cons_cons]
    simp only [layers, leafIsNonNull, List.getLast?_append_of_ne_nil _ (List.cons_ne_nil _ _), hlast]
    exact ih true
  | nonNull inner ih => exact ih false

theorem apart_layers : Layer.Apart (t.layers nullable) := by
  unfold Layer.Apart
  induction t generalizing nullable with
  | named n => cases nullable <;> simp [layers]
  | list item ih => cases nullable <;> simp [layers, List.isChain_cons, ih true]
  | nonNull inner ih => exact ih false

end TypeRef

namespace Field

/-- What a field tells about itself is what its layers are. -/
structure Tells (f : Field) (layers : List Layer) : Prop where
  depth : layers.count .array = f.listDepth
  list : f.isList = true ↔ .array ∈ layers
  outermost : layers.head? = some .maybeNull ↔ f.isRequired = false
  innermost : f.isList = true → (layers.getLast? = some .maybeNull ↔ f.itemIsRequired = false)
  requiredList : f.listIsRequired = true ↔ layers.head? = some .array
  apart : Layer.Apart layers

theorem isList_iff {f : Field} : f.isList = true ↔ 0 < f.type.listDepth := decide_eq_true_iff

theorem tells_layers (f : Field) : f.Tells (f.type.layers true) where
  depth := f.type.count_array_layers true
  list := by rw [← List.count_pos_iff, TypeRef.count_array_layers, isList_iff]
  outermost := (f.type.head?_layers_eq_maybeNull_iff true).trans (and_iff_right rfl)
  innermost h := by
    rw [TypeRef.getLast?_layers_eq_maybeNull_iff, itemIsRequired, h]
    rfl
  requiredList := by
    rw [TypeRef.head?_layers_eq_array_iff, listIsRequired, Bool.and_eq_true, isList_iff, isRequired]
    simp [and_comm]
  apart := f.type.apart_layers true

/-- A field is resolved to the descriptor of its named type under the layers that the field tells of, and
under no others. An identifier field that is no list is written as a text with such layers. -/
theorem resolve?_tells (f : Field) :
    (∀ named d, f.resolve? named = some d → ∃ base layers,
      f.base? named = some base ∧ d = base.under layers ∧ f.Tells layers ∧
        (∀ others, d = base.under others → others = layers) ∧
        (base.isMaybeNull = false → Layer.Apart base.layers → Layer.Apart d.layers)) ∧
    (f.isList = false → f.plainIdentifier = f.type.wrap .string true) := by
  refine ⟨fun named d h => ?_, fun h => ?_⟩
  · obtain ⟨base, hbase, rfl⟩ := Option.map_eq_some_iff.mp h
    have hunder := f.type.wrap_eq_under true base
    refine ⟨base, f.type.layers true, hbase, hunder, f.tells_layers, fun others hothers => ?_,
      fun hnull hapart => ?_⟩
    · exact Descriptor.under_right_injective (hothers.symm.trans hunder)
    · rw [hunder, Descriptor.layers_under]
      -- Below the last of its layers stands what is no null layer itself.
      refine (f.type.apart_layers true).append hapart fun outer _ inner hinner _ hfirst => ?_
      have hbad := Descriptor.head?_layers_eq_maybeNull_iff.mp (hfirst ▸ hinner)
      rw [hnull] at hbad
      cases hbad
  · have hdepth : ¬ 0 < f.type.listDepth := fun hpos => by simp [isList_iff.mpr hpos] at h
    exact Declarations.plainIdentifier_eq (Nat.eq_zero_of_not_pos hdepth)

/-- Repeated marks count once, as in `[[Int]!!]!!`. -/
theorem resolve?_tells_repeated :
    let f : Field := {
      name := "f"
      type := .nonNull (.nonNull (.list (.nonNull (.nonNull (.list (.named "Int"))))))
      kind := .primitive }
    f.resolve? (fun _ _ => none) = some (.array (.array (.maybeNull .number))) ∧
      f.Tells [.array, .array, .maybeNull] := by
  intro f
  have h : f.resolve? (fun _ _ => none) = some (.array (.array (.maybeNull .number))) := by decide
  obtain ⟨base, layers, hbase, -, htells, hothers, -⟩ := (resolve?_tells f).1 _ _ h
  obtain rfl : Descriptor.number = base := Option.some.inj (Eq.trans (by decide) hbase)
  obtain rfl : [Layer.array, .array, .maybeNull] = layers := hothers _ rfl
  exact ⟨h, htells⟩

end Field

end CheckedModels
