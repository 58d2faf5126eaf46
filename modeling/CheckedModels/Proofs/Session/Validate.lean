import CheckedModels.Proofs.Conversion.Accepted
import CheckedModels.Proofs.Session.Cached

/-! Validation from coherent caches comes to what validation without caches comes to. -/
namespace CheckedModels

variable {r : Registry} {unions : Nat} {key : String} {m : Model} {d : Descriptor} {s : Validator} {v : Value}

namespace Caches

theorem Coherent.add_class {c : Caches} (hc : c.Coherent r) (h : r.find? key = some (.model m))
    (hf : m.fault? = none) : Coherent { c with classes := (key, m.toClass) :: c.classes } r := by
  refine ⟨fun k made hk => ?_, hc.validators⟩
  rw [Entries.lookup_cons_ite] at hk
  split at hk
  · next heq =>
    rw [heq]
    exact ⟨m, h, hf, (Option.some.inj hk).symm⟩
  · exact hc.classes k made hk

theorem Coherent.add_validator {c : Caches} (hc : c.Coherent r) (h : r.Fits s d) :
    Coherent { c with validators := (d, s) :: c.validators } r := by
  refine ⟨hc.classes, fun k made hk => ?_⟩
  rw [Entries.lookup_cons_ite] at hk
  split at hk
  · next heq =>
    obtain rfl := Option.some.inj hk
    rwa [heq]
  · exact hc.validators k made hk

end Caches

namespace Registry

open Cached

theorem go_get {α : Type} (f : Caches → Cached α) (c : Caches) :
    (get >>= f).go c = (f c).go c := rfl

/-- The class that is kept is the one that would be made. -/
theorem yields_classOf (h : r.find? key = some (.model m)) (hf : m.fault? = none) :
    Yields r (r.classOf key) (· = .ok m.toClass) := by
  have hm : r.model? key = some m := by simp [model?, h]
  intro c hc
  unfold classOf
  rw [hm]
  have hfit := hf
  unfold Model.fault? at hf
  split at hf
  · cases hf
  · next hs =>
    split at hf
    · cases hf
    · next hn =>
      simp only [if_neg hs, go_get]
      cases hk : c.classes.lookup key with
      | some made =>
        obtain ⟨m', hm', -, rfl⟩ := hc.classes key made hk
        obtain rfl : m = m' := by simpa [h] using hm'
        exact ⟨_, c, rfl, rfl, hc⟩
      | none =>
        simp only [if_neg hn]
        exact ⟨_, _, rfl, rfl, hc.add_class h hfit⟩

/-- A model that cannot be used has no class. -/
theorem yields_classOf_fault (h : r.find? key = some (.model m)) {fault : Fault}
    (hf : m.fault? = some fault) : Yields r (r.classOf key) (· = .error (.broken fault)) := by
  have hm : r.model? key = some m := by simp [model?, h]
  intro c hc
  have hnone : c.classes.lookup key = none := by
    refine Option.eq_none_iff_forall_ne_some.mpr fun made hk => ?_
    obtain ⟨m', hmade, hfit, -⟩ := hc.classes key made hk
    obtain rfl : m = m' := by simpa [h] using hmade
    simp [hf] at hfit
  unfold classOf
  rw [hm]
  unfold Model.fault? at hf
  split at hf
  · next hs =>
    obtain rfl := Option.some.inj hf
    simp only [if_pos hs]
    exact ⟨_, c, rfl, rfl, hc⟩
  · next hs =>
    split at hf
    · next hn =>
      obtain rfl := Option.some.inj hf
      simp only [if_neg hs, go_get, hnone, if_pos hn]
      exact ⟨_, c, rfl, rfl, hc⟩
    · cases hf

/-- Whatever validates a descriptor, from coherent caches it comes to the same as without caches. -/
def Follows (r : Registry) (unions : Nat) (d : Descriptor) (v : Value) : Prop :=
  ∀ s, r.Fits s d → Yields r (r.validateCached unions s v) (Agrees r (r.validate unions d v))

/-- A validator is made only of a descriptor with a finite name. -/
theorem yields_validatorOf (h : r.Follows unions d v) :
    Yields r (do r.validateCached unions (← r.validatorOf d) v)
      (Agrees r (r.onItsOwn d (r.validate unions d v))) := by
  have hagrees : ∀ s, r.Fits s d →
      Yields r (r.validateCached unions s v) (Agrees r (r.onItsOwn d (r.validate unions d v))) := by
    intro s hs c hc
    obtain ⟨o, after, hgo, ho, hafter⟩ := h s hs c hc
    exact ⟨o, after, hgo, fun hr => by rw [onItsOwn_of_nameEnds (hr d), ho hr], hafter⟩
  intro c hc
  unfold validatorOf
  rw [bind_assoc, go_get]
  cases hk : c.validators.lookup d with
  | some made => exact hagrees made (hc.validators d made hk) c hc
  | none =>
    cases hm : r.record? d with
    | none =>
      cases hends : r.nameEnds d with
      | true =>
        have hmade := hagrees _ (.layers d) _ (hc.add_validator (.layers d))
        cases d <;> (simp only [hends, if_true]; exact hmade)
      | false =>
        have hthrow : Yields r (throw (.broken .endless) : Cached Value)
            (Agrees r (r.onItsOwn d (r.validate unions d v))) :=
          yields_throw fun _ => (onItsOwn_endless hends _).symm
        cases d <;> (simp only [hends, Bool.false_eq_true, if_false]; exact hthrow c hc)
    | some m =>
      obtain ⟨key, rfl, hfind⟩ := record?_eq_some_iff.mp hm
      cases hf : m.fault? with
      | some fault =>
        obtain ⟨_, after, hgo, rfl, hafter⟩ := yields_classOf_fault hfind hf c hc
        refine ⟨.error (.broken fault), after, by simp only [bind_assoc, go_bind_error hgo], fun _ => ?_, hafter⟩
        rw [onItsOwn_of_nameEnds (nameEnds_of_record hm), validate_fault hfind hf]
        rfl
      | none =>
        obtain ⟨_, after, hgo, rfl, hafter⟩ := yields_classOf hfind hf c hc
        simp only [bind_assoc, go_bind_ok hgo]
        exact hagrees _ (.record hfind hf) _ (hafter.add_validator (.record hfind hf))

theorem yields_isInstanceOf (v : Value) (ds : List Descriptor) :
    Yields r (r.isInstanceOfCached v ds) (· = r.isInstanceOf v ds) := by
  induction ds with
  | nil => exact yields_pure rfl
  | cons d rest ih =>
    unfold isInstanceOfCached isInstanceOf
    cases hm : r.record? d with
    | none => cases d <;> exact ih
    | some m =>
      obtain ⟨key, rfl, hfind⟩ := record?_eq_some_iff.mp hm
      cases hf : m.fault? with
      | none =>
        have hclass : Yields r (Cached.via Outcome.nameAsIssue (r.classOf key)) (· = .ok m.toClass) :=
          (yields_classOf hfind hf).via fun _ h => congrArg Outcome.nameAsIssue h
        simp only [hf]
        refine hclass.bind_ok ?_
        cases v with
        | «instance» serial model name attributes held =>
          by_cases h : model = key
          · simp only [h, if_true]
            exact yields_pure rfl
          · simp only [h, if_false]
            exact ih
        | scalar | list | tuple | dict => exact ih
      | some fault =>
        have hfails : Yields r (Cached.via Outcome.nameAsIssue (r.classOf key))
            (· = Outcome.nameAsIssue (.error (.broken fault))) :=
          (yields_classOf_fault hfind hf).via fun _ h => congrArg Outcome.nameAsIssue h
        simp only [hf]
        cases fault <;> exact hfails.bind_error rfl

/-- Only models have classes. -/
theorem Fits.eq_layers (hs : r.Fits s d) (hd : r.record? d = none) : s = .layers d := by
  cases hs with
  | record h _ => simp [record?_named h] at hd
  | layers => rfl

section Layers

theorem follows_basic (b : Basic) : r.Follows unions (.basic b) v := by
  rintro s ⟨⟩
  rw [validateCached, validate_basic]
  exact agrees_of _

theorem follows_maybeNull {inner : Descriptor} (h : r.Follows unions inner v) :
    r.Follows unions (.maybeNull inner) v := by
  rintro s ⟨⟩
  by_cases hv : v = .null
  · subst hv
    rw [validateCached, validate_maybeNull_null]
    exact yields_pure fun _ => rfl
  · rw [validate_maybeNull hv, validateCached]
    · exact (h _ (.layers inner)).via_agrees _
    · exact hv

theorem yields_embed {x : Value} (h : r.Follows unions d x) : Yields r
    (Cached.via (r.embed d) (r.validateCached unions (.layers d) x))
    (Agrees r (r.embed d (r.validate unions d x))) :=
  (h _ (.layers d)).via_agrees _

theorem yields_list {parts : List (Step × Cached Value)} {outcomes : List (Step × Outcome)}
    (h : List.Forall₂ (fun p o => p.1 = o.1 ∧ Yields r p.2 (Agrees r o.2)) parts outcomes) :
    Yields r (Cached.via (Value.list <$> ·) (Cached.gather parts))
      (Agrees r (.list <$> Outcome.gather outcomes)) :=
  (yields_gather h).via_agrees (Value.list <$> ·)

theorem validateCached_array {items : List Value} (h : v.items? = some items) (item : Descriptor) :
    r.validateCached unions (.layers (.array item)) v = Cached.via (Value.list <$> ·)
      (Cached.gather (items.mapIdx fun i x => (Step.index i,
        Cached.via (r.embed item) (r.validateCached r.entries.length (.layers item) x)))) := by
  have hattach : items.attach.mapIdx (fun i x => (Step.index i,
        Cached.via (r.embed item) (r.validateCached r.entries.length (.layers item) x.1))) =
      items.mapIdx fun i x => (Step.index i,
        Cached.via (r.embed item) (r.validateCached r.entries.length (.layers item) x)) :=
    List.ext_getElem (by simp) fun i _ _ => by simp
  rw [validateCached]
  split
  · next given hgiven =>
    obtain rfl := Option.some.inj (hgiven.symm.trans h)
    exact congrArg (fun parts => Cached.via (Value.list <$> ·) (Cached.gather parts)) hattach
  · next hnone => cases hnone.symm.trans h

theorem validateCached_array_of_none (h : v.items? = none) (item : Descriptor) :
    r.validateCached unions (.layers (.array item)) v = Cached.of (Outcome.reject .notList) := by
  rw [validateCached]
  split
  · next hsome => cases hsome.symm.trans h
  · rfl

theorem follows_array {item : Descriptor}
    (h : ∀ e x, sizeOf x < sizeOf v → r.Follows r.entries.length e x) : r.Follows unions (.array item) v := by
  rintro s ⟨⟩
  cases hv : v.items? with
  | none =>
    rw [validate_array_of_none hv, validateCached_array_of_none hv]
    exact agrees_of _
  | some items =>
    rw [validate_array hv, validateCached_array hv]
    refine yields_list (Entries.forall₂_mapIdx fun i x hx => ⟨rfl, yields_embed ?_⟩)
    exact h item x (Value.sizeOf_item hv hx)

theorem yields_collection {parts : List (Option Scalar × Cached Value)}
    {outcomes : List (Option Scalar × Outcome)}
    (h : List.Forall₂ (fun p o => p.1 = o.1 ∧ Yields r p.2 (Agrees r o.2)) parts outcomes)
    (property : Option String) :
    Yields r (Cached.via (Collection.toDict <$> ·) (Cached.index property [] parts))
      (Agrees r (Collection.toDict <$> Collection.index property [] outcomes)) :=
  (yields_index h property []).via_agrees (Collection.toDict <$> ·)

/-- Items are keyed by what identifies them. -/
theorem yields_items {item : Descriptor} {items : List Value}
    (h : ∀ x ∈ items, r.Follows r.entries.length item x) :
    Yields r
      (if m.identifier?.isNone then Cached.of (Outcome.reject (.noIdentifier m.name))
        else Cached.via (Collection.toDict <$> ·) (Cached.index m.identifierName? []
          (items.attach.map fun x => (none,
            Cached.via (r.embed item) (r.validateCached r.entries.length (.layers item) x.1)))))
      (Agrees r (if m.identifier?.isNone then Outcome.reject (.noIdentifier m.name)
        else Collection.toDict <$> Collection.index m.identifierName? []
          (items.attach.map fun x => (none, r.embed item (r.validate r.entries.length item x.1))))) := by
  split
  · exact agrees_of _
  · exact yields_collection (Entries.forall₂_map fun x _ => ⟨rfl, yields_embed (h x.1 x.2)⟩) _

theorem follows_map {item : Descriptor}
    (h : ∀ e x, sizeOf x < sizeOf v → r.Follows r.entries.length e x) : r.Follows unions (.map item) v := by
  rintro s ⟨⟩
  have hitems : ∀ items, v.items? = some items → ∀ x ∈ items, r.Follows r.entries.length item x :=
    fun items hitems x hx => h item x (Value.sizeOf_item hitems hx)
  rw [validateCached, validate]
  cases hm : r.record? item with
  | none => exact agrees_of _
  | some m =>
    cases v with
    | dict entries =>
      refine yields_collection (Entries.forall₂_map fun e _ => ⟨rfl, yields_embed ?_⟩) _
      exact h item e.1.2 (Value.sizeOf_value e.2)
    | scalar => exact agrees_of _
    | list | tuple | «instance» => exact yields_items (hitems _ rfl)

theorem follows_unregistered (h : r.find? key = none) : r.Follows unions (.named key) v := by
  intro s hs
  obtain rfl := hs.eq_layers (by simp [record?, model?, h])
  rw [validateCached, validate, h]
  exact agrees_of _

theorem follows_named_basic {b : Basic} (h : r.find? key = some (.basic b)) :
    r.Follows unions (.named key) v := by
  intro s hs
  obtain rfl := hs.eq_layers (by simp [record?, model?, h])
  rw [validateCached, validate, h]
  exact agrees_of _

theorem follows_enumeration {e : Enumeration} (h : r.find? key = some (.enumeration e)) :
    r.Follows unions (.named key) v := by
  intro s hs
  obtain rfl := hs.eq_layers (by simp [record?, model?, h])
  rw [validateCached, validate, h]
  exact agrees_of _

theorem follows_fault (h : r.find? key = some (.model m)) {fault : Fault} (hf : m.fault? = some fault) :
    r.Follows unions (.named key) v := by
  intro s hs
  rw [validate_fault h hf]
  cases hs with
  | @record _ other hother hfit =>
    -- There is no class of a model with a fault.
    obtain rfl : other = m := by simpa [h] using hother.symm
    simp [hf] at hfit
  | layers =>
    rw [validateCached, h]
    exact (yields_classOf_fault h hf).bind_error fun _ => rfl

/-- A class makes of data what the model makes of it. -/
theorem yields_record (h : r.find? key = some (.model m)) (hf : m.fault? = none)
    (hparts : ∀ e x, sizeOf x < sizeOf v → r.Follows r.entries.length e x) :
    Yields r (r.validateCached unions (.record key m.toClass) v)
      (Agrees r (r.validate unions (.named key) v)) := by
  cases v with
  | dict entries =>
    rw [validateCached, validate_dict h hf]
    have hstrays : List.Forall₂ (fun p o => p.1 = o.1 ∧ Yields r p.2 (Agrees r o.2))
        ((m.toClass.strays entries).map fun p => (p.1, Cached.of p.2)) (m.toClass.strays entries) :=
      List.forall₂_map_left_iff.mpr (List.forall₂_same.mpr fun p _ => ⟨rfl, agrees_of p.2⟩)
    refine (yields_gather (List.rel_append ?_ hstrays)).via_agrees _
    rw [Model.toClass, List.map_map]
    refine Entries.forall₂_map fun p _ => ⟨congrArg Step.key (m.key_field p), ?_⟩
    dsimp only [Function.comp_apply]
    split
    · next x hx =>
      rw [part_of_some (m.key_field p ▸ hx)]
      exact yields_embed (hparts p.2 x (Nat.lt_trans (Value.sizeOf_under hx) (by simp)))
    · next hnone =>
      rw [part_of_none (m.key_field p ▸ hnone), m.omitted_field]
      exact agrees_of _
  | «instance» =>
    rw [validateCached, validate, h]
    simp only [hf]
    exact agrees_of _
  | scalar | list | tuple =>
    rw [validate_not_model h hf (by simp) (by simp), validateCached]
    · exact agrees_of _
    · simp
    · simp

/-- A model is validated by its class, which is looked up unless it is at hand. -/
theorem follows_record (h : r.find? key = some (.model m)) (hf : m.fault? = none)
    (hparts : ∀ e x, sizeOf x < sizeOf v → r.Follows r.entries.length e x) :
    r.Follows unions (.named key) v := by
  have hclass : Yields r (r.validateCached unions (.record key m.toClass) v)
      (Agrees r (r.validate unions (.named key) v)) := yields_record h hf hparts
  intro s hs
  cases hs with
  | @record _ other hother _ =>
    obtain rfl : other = m := by simpa [h] using hother.symm
    exact hclass
  | layers =>
    rw [validateCached, h]
    exact (yields_classOf h hf).bind_ok hclass

theorem follows_union {u : Union} (h : r.find? key = some (.union u))
    (hall : ∀ n a, n < unions → r.Follows n a v) : r.Follows unions (.named key) v := by
  intro s hs
  obtain rfl := hs.eq_layers (by simp [record?, model?, h])
  rw [validateCached, validate, h]
  have hfound := yields_isInstanceOf (r := r) v u.alternatives
  dsimp only
  cases hv : r.isInstanceOf v u.alternatives with
  | error e => exact (hv ▸ hfound).bind_error fun _ => rfl
  | ok found =>
    refine (hv ▸ hfound).bind_ok ?_
    cases found with
    | true => exact yields_pure fun _ => rfl
    | false =>
      cases unions with
      | zero => exact agrees_of _
      | succ n =>
        exact yields_first (Entries.forall₂_map fun a _ => yields_validatorOf (hall n a (Nat.lt_succ_self n)))

end Layers

/-- From coherent caches validation comes to what it comes to without caches. -/
theorem follows (unions : Nat) (d : Descriptor) (v : Value) : r.Follows unions d v := by
  induction unions, d, v using conversion_induction r.entries.length with
  | step unions d v hlayer halternatives hparts =>
    cases d with
    | basic b => exact follows_basic b
    | maybeNull inner => exact follows_maybeNull (hlayer inner rfl)
    | array item => exact follows_array hparts
    | map item => exact follows_map hparts
    | named key =>
      cases hfind : r.find? key with
      | none => exact follows_unregistered hfind
      | some definition =>
        cases definition with
        | basic b => exact follows_named_basic hfind
        | enumeration e => exact follows_enumeration hfind
        | union u => exact follows_union hfind halternatives
        | model m =>
          cases hf : m.fault? with
          | some fault => exact follows_fault hfind hf
          | none => exact follows_record hfind hf hparts

theorem yields_check (d : Descriptor) (v : Value) :
    Yields r (r.checkCached d v) (Agrees r (r.convert d v)) :=
  yields_validatorOf (follows r.entries.length d v)

end Registry

end CheckedModels
