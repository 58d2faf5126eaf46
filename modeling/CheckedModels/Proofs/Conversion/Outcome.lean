import CheckedModels.Conversion.Collection
import Mathlib.Data.List.Forall2

/-! Outcomes that are put together from parts: which faults they may have, and when they accept. -/
namespace CheckedModels.Outcome

variable {α β : Type} {fault : Fault} {p q : Prop}

def Avoids (fault : Fault) (x : Except Failure α) : Prop := x ≠ .error (.broken fault)

/-- The outcome is no fault, and it accepts exactly if `p` holds. -/
inductive Decides (p : Prop) : Except Failure α → Prop where
  | accepted (h : p) (a : α) : Decides p (.ok a)
  | rejected (h : ¬ p) (issues : List Issue) : Decides p (.error (.rejected issues))

theorem avoids_ok (a : α) : Avoids fault (.ok a) := by simp [Avoids]

theorem avoids_reject (cause : Cause) : Avoids fault (reject (α := α) cause) := by
  simp [Avoids, reject]

theorem avoids_broken {other : Fault} (h : other ≠ fault) : Avoids fault (broken (α := α) other) := by
  simpa [Avoids, broken] using h

theorem Avoids.map {x : Except Failure α} (h : Avoids fault x) (f : α → β) :
    Avoids fault (f <$> x) := by
  cases x with
  | ok a => exact avoids_ok (f a)
  | error e => simpa [Avoids] using h

theorem Avoids.bind {x : Except Failure α} (h : Avoids fault x) {f : α → Except Failure β}
    (hf : ∀ a, Avoids fault (f a)) : Avoids fault (x >>= f) := by
  cases x with
  | ok a => exact hf a
  | error e => simpa [Avoids, Bind.bind, Except.bind] using h

/-- Everything but an unusable name stays as it is when a model is embedded. -/
theorem avoids_embed {x : Outcome} (h : fault ≠ .nullInName → Avoids fault x) (model : String) :
    Avoids fault (Outcome.embed model x) := by
  unfold Outcome.embed
  split
  · simp [Avoids]
  · exact avoids_reject _
  · next hne =>
    by_cases hfault : fault = .nullInName
    · rw [hfault]
      exact hne
    · exact h hfault

theorem avoids_gather {parts : List (Step × Outcome)} (h : ∀ part ∈ parts, Avoids fault part.2) :
    Avoids fault (gather parts) := by
  induction parts with
  | nil => exact avoids_ok []
  | cons part rest ih =>
    obtain ⟨step, x⟩ := part
    have hhead : Avoids fault x := h _ List.mem_cons_self
    have htail := ih fun part hp => h part (List.mem_cons_of_mem _ hp)
    unfold gather
    split <;> simp_all [Avoids]

theorem avoids_first {otherwise : Outcome} {parts : List Outcome} (ho : Avoids fault otherwise)
    (h : ∀ part ∈ parts, Avoids fault part) : Avoids fault (first otherwise parts) := by
  induction parts with
  | nil => exact ho
  | cons part rest ih =>
    have htail := ih fun part hp => h part (List.mem_cons_of_mem _ hp)
    unfold first
    split
    · exact ho
    · next heq =>
      obtain ⟨-, rfl⟩ := List.cons.inj heq
      exact htail
    · next heq =>
      obtain ⟨rfl, -⟩ := List.cons.inj heq
      exact h _ List.mem_cons_self

theorem avoids_entryKey (own : Option Text) (given : Option Scalar) :
    Avoids fault (Collection.entryKey own given) := by
  unfold Collection.entryKey
  repeat' split
  all_goals first | exact avoids_ok _ | exact avoids_reject _

theorem avoids_index {property : Option String} {parts : List (Option Scalar × Outcome)}
    (h : ∀ part ∈ parts, Avoids fault part.2) (done : List (Text × Value)) :
    Avoids fault (Collection.index property done parts) := by
  induction parts generalizing done with
  | nil => exact avoids_ok done
  | cons part rest ih =>
    obtain ⟨given, x⟩ := part
    have htail := ih fun part hp => h part (List.mem_cons_of_mem _ hp)
    refine (h _ List.mem_cons_self).bind fun made => (avoids_entryKey _ _).bind fun key => ?_
    split
    · exact avoids_reject _
    · exact htail _

namespace Decides

theorem congr {x : Except Failure α} (h : Decides p x) (hpq : p ↔ q) : Decides q x := by
  cases h with
  | accepted h a => exact .accepted (hpq.mp h) a
  | rejected h issues => exact .rejected (fun hq => h (hpq.mpr hq)) issues

theorem map {x : Except Failure α} (h : Decides p x) (f : α → β) : Decides p (f <$> x) := by
  cases h with
  | accepted h a => exact .accepted h (f a)
  | rejected h issues => exact .rejected h issues

theorem embed {x : Outcome} (h : Decides p x) (model : String) :
    Decides p (Outcome.embed model x) := by
  cases h with
  | accepted h a => exact .accepted h a
  | rejected h issues => exact .rejected h _

end Decides

theorem decides_reject (h : ¬ p) (cause : Cause) : Decides p (reject (α := α) cause) :=
  .rejected h _

theorem decides_gather {parts : List (Step × Outcome)} {ps : List Prop}
    (h : List.Forall₂ (fun part p => Decides p part.2) parts ps) :
    Decides (∀ p ∈ ps, p) (gather parts) := by
  induction h with
  | nil => exact .accepted (by simp) []
  | @cons part p rest ps hhead _ ih =>
    obtain ⟨step, x⟩ := part
    have hcons : (p ∧ ∀ q ∈ ps, q) ↔ ∀ q ∈ p :: ps, q := (List.forall_mem_cons (p := id)).symm
    refine Decides.congr ?_ hcons
    unfold gather
    cases hhead with
    | accepted hp a =>
      generalize gather rest = tail at ih
      cases ih with
      | accepted hps vs => exact .accepted ⟨hp, hps⟩ _
      | rejected hps issues => exact .rejected (fun h => hps h.2) _
    | rejected hp issues =>
      generalize gather rest = tail at ih
      cases ih with
      | accepted hps vs => exact .rejected (fun h => hp h.1) _
      | rejected hps issues => exact .rejected (fun h => hp h.1) _

theorem decides_first {ι : Type} {otherwise : Outcome} {f : ι → Outcome} {P : ι → Prop} {xs : List ι}
    (ho : Decides False otherwise) (h : ∀ x ∈ xs, Decides (P x) (f x)) :
    Decides (∃ x ∈ xs, P x) (first otherwise (xs.map f)) := by
  induction xs with
  | nil => exact ho.congr (by simp)
  | cons x rest ih =>
    obtain ⟨hhead, hrest⟩ := List.forall_mem_cons.mp h
    refine Decides.congr ?_ (List.exists_mem_cons_iff P x rest).symm
    rw [List.map_cons]
    generalize f x = part at hhead
    cases hhead with
    | accepted hp a => exact .accepted (.inl hp) a
    | rejected hp issues => exact (ih hrest).congr ⟨.inr, fun h => h.resolve_left hp⟩

end CheckedModels.Outcome
