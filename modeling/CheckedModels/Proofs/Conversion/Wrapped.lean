import CheckedModels.Proofs.Conversion.Collection
import Mathlib.Logic.Function.Iterate

/-! What the type of a field makes of a value, position by position, over any base descriptor. -/
namespace CheckedModels

namespace TypeRef

/-- Which values a type takes: null where no mark forbids it, at a list whatever has items, each of which
the type of the items takes, and at the name what `P` tells. -/
def Takes (P : Value → Prop) : Bool → TypeRef → Value → Prop
  | nullable, .named _, v => nullable = true ∧ v = .null ∨ P v
  | nullable, .list item, v =>
    nullable = true ∧ v = .null ∨ ∃ items, v.items? = some items ∧ ∀ x ∈ items, item.Takes P true x
  | _, .nonNull inner, v => inner.Takes P false v

/-- What a type makes of a value: null where null stands and no mark forbids it, a list of what it makes of
each item, and at the name what `P` says. -/
def Makes (P : Value → Value → Prop) : Bool → TypeRef → Value → Value → Prop
  | nullable, .named _, v, w =>
    nullable = true ∧ v = .null ∧ w = .null ∨ (nullable = true → v ≠ .null) ∧ P v w
  | nullable, .list item, v, w =>
    nullable = true ∧ v = .null ∧ w = .null ∨
      ∃ items made, v.items? = some items ∧ w = .list made ∧ List.Forall₂ (item.Makes P true) items made
  | _, .nonNull inner, v, w => inner.Makes P false v w

/-- Of the values that have items only lists stand where the type has a list. -/
def Listed : TypeRef → Value → Prop
  | .named _, _ => True
  | .list item, v => ∀ items, v.items? = some items → v = .list items ∧ ∀ x ∈ items, item.Listed x
  | .nonNull inner, v => inner.Listed v

variable {P : Value → Value → Prop} {nullable : Bool} {v : Value}

/-- A type makes something of the values that it takes. -/
theorem exists_makes_iff (t : TypeRef) :
    (∃ w, t.Makes P nullable v w) ↔ t.Takes (fun x => ∃ y, P x y) nullable v := by
  induction t generalizing nullable v with
  | named name =>
    constructor
    · rintro ⟨w, ⟨hn, hv, -⟩ | ⟨-, hw⟩⟩
      · exact .inl ⟨hn, hv⟩
      · exact .inr ⟨w, hw⟩
    · intro h
      by_cases hnull : nullable = true ∧ v = .null
      · exact ⟨.null, .inl ⟨hnull.1, hnull.2, rfl⟩⟩
      · obtain ⟨w, hw⟩ := h.resolve_left hnull
        exact ⟨w, .inr ⟨fun hn hv => hnull ⟨hn, hv⟩, hw⟩⟩
  | list item ih =>
    constructor
    · rintro ⟨w, ⟨hn, hv, -⟩ | ⟨items, made, hv, -, hmade⟩⟩
      · exact .inl ⟨hn, hv⟩
      · refine .inr ⟨items, hv, fun x hx => ih.mp ?_⟩
        obtain ⟨y, -, hy⟩ := Entries.exists_rel_of_mem hmade.flip hx
        exact ⟨y, hy⟩
    · rintro (⟨hn, hv⟩ | ⟨items, hv, hitems⟩)
      · exact ⟨.null, .inl ⟨hn, hv, rfl⟩⟩
      · obtain ⟨made, hmade⟩ := Entries.exists_forall₂ fun x hx => ih.mpr (hitems x hx)
        exact ⟨.list made, .inr ⟨items, made, hv, rfl, hmade⟩⟩
  | nonNull inner ih => exact ih

/-- With nothing but lists at the lists of the type, a value is taken as the type reads. -/
theorem takes_iff_admits {P : Value → Prop} {t : TypeRef} (h : t.Listed v) :
    t.Takes P nullable v ↔ t.Admits (fun _ => P) nullable v := by
  induction t generalizing nullable v with
  | named name =>
    rw [admits_named_iff]
    rfl
  | list item ih =>
    rw [admits_list_iff]
    refine or_congr_right (exists_congr fun items => ?_)
    constructor
    · rintro ⟨hv, hitems⟩
      obtain ⟨heq, hlisted⟩ := h items hv
      exact ⟨heq, fun x hx => (ih (hlisted x hx)).mp (hitems x hx)⟩
    · rintro ⟨rfl, hitems⟩
      obtain ⟨-, hlisted⟩ := h items rfl
      exact ⟨rfl, fun x hx => (ih (hlisted x hx)).mpr (hitems x hx)⟩
  | nonNull inner ih => exact (ih h).trans admits_nonNull_iff.symm

/-- Repeated marks count once. -/
theorem wrap_nonNull_iterate (t : TypeRef) (base : Descriptor) (n : Nat) :
    (nonNull^[n + 1] t).wrap base nullable = t.nonNull.wrap base nullable := by
  induction n generalizing t with
  | zero => rfl
  | succ n ih => exact (ih t.nonNull).trans rfl

/-- The name of what is wrapped ends with the name of the base. -/
theorem key?_wrap (t : TypeRef) (base : Descriptor) : (t.wrap base nullable).key? = base.key? := by
  induction t generalizing nullable with
  | named name => cases nullable <;> rfl
  | list item ih => cases nullable <;> exact ih
  | nonNull inner ih => exact ih

end TypeRef

namespace Registry

variable {r : Registry} {base inner item : Descriptor} {nullable : Bool} {fault : Fault} {v w : Value}

theorem nameEnds_wrap (t : TypeRef) : r.nameEnds (t.wrap base nullable) = r.nameEnds base := by
  rw [nameEnds, nameEnds, t.key?_wrap]

theorem check_maybeNull_eq_ok_iff : r.check (.maybeNull inner) v = .ok w ↔
    v = .null ∧ w = .null ∨ v ≠ .null ∧ r.check inner v = .ok w := validate_maybeNull_eq_ok_iff

theorem check_array_eq_ok_iff : r.check (.array item) v = .ok w ↔ ∃ items made, v.items? = some items ∧
    w = .list made ∧ List.Forall₂ (fun x y => r.check item x = .ok y) items made := by
  simp only [check, validate_array_eq_ok_iff, and_comm (a := w = _)]

/-- The layers for a type make of a value what the type makes of it, the base descriptor standing for the
name. -/
theorem check_wrap_eq_ok_iff (t : TypeRef) : r.check (t.wrap base nullable) v = .ok w ↔
    t.Makes (fun x y => r.check base x = .ok y) nullable v w := by
  induction t generalizing nullable v w with
  | named name =>
    cases nullable with
    | false => simp [TypeRef.wrap, TypeRef.Makes]
    | true => simp [TypeRef.wrap, TypeRef.Makes, check_maybeNull_eq_ok_iff]
  | list item ih =>
    -- An item is a new position, which nothing marks.
    have harray : r.check (.array (item.wrap base true)) v = .ok w ↔ ∃ items made, v.items? = some items ∧
        w = .list made ∧ List.Forall₂ (item.Makes (fun x y => r.check base x = .ok y) true) items made := by
      simp only [check_array_eq_ok_iff, ih]
    cases nullable with
    | false => simp [TypeRef.wrap, TypeRef.Makes, harray]
    | true =>
      simp only [TypeRef.wrap, TypeRef.Makes, if_true, check_maybeNull_eq_ok_iff, harray, true_and]
      refine or_congr_right (and_iff_right_of_imp ?_)
      rintro ⟨items, made, hv, -⟩ rfl
      cases hv
  | nonNull inner ih => exact ih

theorem avoids_maybeNull (h : Outcome.Avoids fault (r.check inner v)) :
    Outcome.Avoids fault (r.check (.maybeNull inner) v) := by
  by_cases hv : v = .null
  · rw [check, hv, validate_maybeNull_null]
    exact Outcome.avoids_ok _
  · rw [check, validate_maybeNull hv]
    exact avoids_embed fun _ => h

theorem avoids_array (h : ∀ x, Outcome.Avoids fault (r.check item x)) :
    Outcome.Avoids fault (r.check (.array item) v) := by
  cases hv : v.items? with
  | some items =>
    rw [check, validate_array hv]
    refine (Outcome.avoids_gather fun part hpart => ?_).map _
    obtain ⟨i, hi, rfl⟩ := List.mem_mapIdx.mp hpart
    exact avoids_embed fun _ => h _
  | none =>
    rw [check, validate_array_of_none hv]
    exact Outcome.avoids_reject _

/-- The layers for a type run into no fault of their own. -/
theorem avoids_wrap (h : ∀ x, Outcome.Avoids fault (r.check base x)) (t : TypeRef) :
    Outcome.Avoids fault (r.check (t.wrap base nullable) v) := by
  induction t generalizing nullable v with
  | named name =>
    cases nullable with
    | false => exact h v
    | true => exact avoids_maybeNull (h v)
  | list item ih =>
    have harray : Outcome.Avoids fault (r.check (.array (item.wrap base true)) v) := avoids_array fun _ => ih
    cases nullable with
    | false => exact harray
    | true => exact avoids_maybeNull harray
  | nonNull inner ih => exact ih

/-- What is made by itself without a finite name fails for every value. -/
theorem isValid_endless {d : Descriptor} (hends : r.nameEnds d = false) (v : Value) :
    r.isValid d v = .error .endless := by
  rw [isValid, convert, onItsOwn_endless hends]
  rfl

theorem isValid_eq_error_iff {d : Descriptor} (hends : r.nameEnds d = true) :
    r.isValid d v = .error fault ↔ r.check d v = .error (.broken fault) := by
  rw [isValid, convert, onItsOwn_of_nameEnds hends]
  split <;> simp_all

/-- A descriptor under the layers for a type accepts what the type takes, where the descriptor itself says
what is accepted at the name, and that is what the type admits as long as nothing but lists stands at its
lists. It makes lists of the same shape, with null or what the descriptor makes at each end, and fails to
answer only where the descriptor itself does, which without a finite name is everywhere. -/
theorem wrap_reads (r : Registry) (base : Descriptor) (t : TypeRef) (v : Value) :
    (r.isValid (t.wrap base true) v = .ok true ↔
      r.nameEnds base = true ∧ t.Takes (fun x => r.isValid base x = .ok true) true v) ∧
    (r.nameEnds base = true → t.Listed v → (r.isValid (t.wrap base true) v = .ok true ↔
      t.Admits (fun _ x => r.isValid base x = .ok true) true v)) ∧
    (r.isValid (t.wrap base true) v = .ok true → ∃ w, r.create (t.wrap base true) v = .ok w ∧
      t.Makes (fun x y => r.isValid base x = .ok true ∧ r.create base x = .ok y) true v w) ∧
    (∀ fault, r.isValid (t.wrap base true) v = .error fault → ∃ x, r.isValid base x = .error fault) ∧
    ∀ n, (TypeRef.nonNull^[n + 1] t).wrap base true = t.nonNull.wrap base true := by
  have htakes : r.isValid (t.wrap base true) v = .ok true ↔
      r.nameEnds base = true ∧ t.Takes (fun x => r.isValid base x = .ok true) true v := by
    rw [isValid_eq_true_iff, nameEnds_wrap]
    refine and_congr_right fun hends => ?_
    simp only [isValid_iff_accepts hends, Accepts, check_wrap_eq_ok_iff]
    exact t.exists_makes_iff
  refine ⟨htakes, fun hends hlisted => ?_, fun hvalid => ?_, fun fault hfault => ?_, t.wrap_nonNull_iterate base⟩
  · rw [htakes, and_iff_right hends]
    exact TypeRef.takes_iff_admits hlisted
  · obtain ⟨hends, w, hw⟩ := isValid_eq_true_iff.mp hvalid
    refine ⟨w, create_of_check hends hw, ?_⟩
    rw [nameEnds_wrap] at hends
    simpa only [check_eq_ok_iff hends] using (check_wrap_eq_ok_iff t).mp hw
  · cases hends : r.nameEnds base with
    | false =>
      rw [isValid_endless (by rwa [nameEnds_wrap]) v] at hfault
      exact ⟨v, Except.error.inj hfault ▸ isValid_endless hends v⟩
    | true =>
      by_contra hnone
      refine avoids_wrap (fun x hx => hnone ⟨x, ?_⟩) t ((isValid_eq_error_iff (by rwa [nameEnds_wrap])).mp hfault)
      exact (isValid_eq_error_iff hends).mpr hx

/-- An instance has items, the pairs of an attribute and what it holds, so an instance without properties
is taken for an empty list. -/
theorem wrap_reads_instance :
    let t : TypeRef := .nonNull (.list (.nonNull (.named "String")))
    let r : Registry := ⟨[("E", .model ⟨"E", [], true⟩)]⟩
    let e : Value := .record none "E" "E" []
    r.create (.named "E") (.dict []) = .ok e ∧ t.wrap .string true = .array .string ∧
      r.isValid (.array .string) e = .ok true ∧
      ¬ t.Admits (fun _ x => r.isValid .string x = .ok true) true e := by
  intro t r e
  have hfault : (⟨"E", [], true⟩ : Model).fault? = none := by simp [Model.fault?]
  have hcheck : r.check (.named "E") (.dict []) = .ok e :=
    (validate_dict_eq_ok_iff rfl hfault).mpr ⟨by simp, [], .nil, rfl⟩
  refine ⟨create_of_check rfl hcheck, rfl, ?_, ?_⟩
  · exact (isValid_iff_accepts rfl).mpr ⟨.list [], check_array_eq_ok_iff.mpr ⟨[], [], rfl, rfl, .nil⟩⟩
  · rw [TypeRef.admits_nonNull_iff, TypeRef.admits_list_iff]
    simp [e, Value.record]

end Registry

end CheckedModels
