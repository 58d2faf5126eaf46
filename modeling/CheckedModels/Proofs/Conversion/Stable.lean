import CheckedModels.Proofs.Conversion.Union

/-! What a descriptor has made it takes again as it is, and the instances in it are the same ones. -/
namespace CheckedModels

/-- The same value but for the numbers that mark the instances in lists and dictionaries. -/
inductive Value.Renumbered : Value → Value → Prop where
  | scalar (s : Scalar) : Renumbered (.scalar s) (.scalar s)
  | list {items others : List Value} (h : List.Forall₂ Renumbered items others) :
    Renumbered (.list items) (.list others)
  | tuple {items others : List Value} (h : List.Forall₂ Renumbered items others) :
    Renumbered (.tuple items) (.tuple others)
  | dict {entries others : List (Scalar × Value)} (same : entries.map Prod.fst = others.map Prod.fst)
    (h : List.Forall₂ (fun e f => Renumbered e.2 f.2) entries others) :
    Renumbered (.dict entries) (.dict others)
  | record (serial other : Option Nat) (model name : String) (attributes : Entries String)
    (held : Entries Value) : Renumbered (.instance serial model name attributes held)
      (.instance other model name attributes held)

theorem Value.Renumbered.refl (v : Value) : v.Renumbered v := by
  match v with
  | .scalar s => exact .scalar s
  | .list items =>
    refine .list (List.forall₂_same.mpr fun x hx => ?_)
    have hsize := sizeOf_item (v := .list items) rfl hx
    exact refl x
  | .tuple items =>
    refine .tuple (List.forall₂_same.mpr fun x hx => ?_)
    have hsize := sizeOf_item (v := .tuple items) rfl hx
    exact refl x
  | .dict entries =>
    refine .dict rfl (List.forall₂_same.mpr fun e he => ?_)
    have hsize := sizeOf_value he
    exact refl e.2
  | .instance serial model name attributes held => exact .record serial serial model name attributes held
termination_by v
decreasing_by all_goals exact hsize

namespace Value.Renumbered

variable {x y : Value}

theorem identifierOf? (h : x.Renumbered y) (name : String) :
    Collection.identifierOf? name x = Collection.identifierOf? name y := by
  cases h <;> rfl

/-- A renumbered collection has the same keys, each with a renumbered value. -/
theorem exists_collection {made : List (Text × Value)} (h : x.Renumbered (Collection.toDict made)) :
    ∃ again, x = Collection.toDict again ∧ List.Forall₂ (fun f e => f.1 = e.1 ∧ f.2.Renumbered e.2) again made := by
  unfold Collection.toDict at h ⊢
  cases h with
  | @dict entries _ same h =>
    induction made generalizing entries with
    | nil =>
      obtain rfl : entries = [] := by simpa using same
      exact ⟨[], rfl, .nil⟩
    | cons e rest ih =>
      obtain ⟨f, more, hhead, hmore, rfl⟩ := List.forall₂_cons_right_iff.mp h
      simp only [List.map_cons, List.cons.injEq] at same
      obtain ⟨again, hagain, hall⟩ := ih same.2 hmore
      refine ⟨(e.1, f.2) :: again, ?_, .cons ⟨rfl, hhead⟩ hall⟩
      rw [List.map_cons, ← Value.dict.inj hagain]
      exact congrArg (fun key => Value.dict ((key, f.2) :: more)) same.1

end Value.Renumbered

namespace Registry

/-- Every union that can be reached is one of models. -/
def OfModels (r : Registry) (d : Descriptor) : Prop :=
  ∀ key u, Relation.ReflTransGen r.Part d (.named key) → r.find? key = some (.union u) →
    ∀ a ∈ u.alternatives, ∃ m, r.record? a = some m

variable {r : Registry} {d e : Descriptor} {key : String} {m : Model} {unions : Nat} {v w x : Value}

theorem OfModels.of_part (h : r.OfModels d) (hp : r.Part d e) : r.OfModels e :=
  fun key u hk => h key u (.head hp hk)

theorem takes_renumbered {b : Basic} (h : b.Takes w) (hx : x.Renumbered w) : b.Takes x := by
  by_cases hb : b = .frozen
  · subst hb
    trivial
  · obtain ⟨s, rfl⟩ := h.exists_scalar hb
    cases hx
    exact h

theorem isInstanceOf_renumbered (serial other : Option Nat) (model name : String) (attributes : Entries String)
    (held : Entries Value) (ds : List Descriptor) :
    r.isInstanceOf (.instance serial model name attributes held) ds =
      r.isInstanceOf (.instance other model name attributes held) ds := by
  induction ds with
  | nil => rfl
  | cons d rest ih =>
    unfold isInstanceOf
    split
    · simp only [ih]
    · exact ih

/-- The value is taken as it is, however the instances in it are numbered. -/
def Keeps (r : Registry) (d : Descriptor) (w : Value) : Prop :=
  ∀ x : Value, x.Renumbered w → ∀ n, r.validate n d x = .ok x

section Layers

theorem keeps_basic {b : Basic} (h : b.Takes w) : r.Keeps (.basic b) w := by
  intro x hx n
  rw [validate_basic]
  exact Basic.validate_eq_ok_iff.mpr ⟨rfl, takes_renumbered h hx⟩

theorem keeps_null (inner : Descriptor) : r.Keeps (.maybeNull inner) .null := by
  intro x hx n
  cases hx
  exact validate_maybeNull_null inner

theorem Keeps.maybeNull {inner : Descriptor} (h : r.Keeps inner w) : r.Keeps (.maybeNull inner) w := by
  intro x hx n
  by_cases hnull : x = .null
  · rw [hnull, validate_maybeNull_null]
  · rw [validate_maybeNull hnull]
    exact embed_eq_ok_iff.mpr (h x hx n)

theorem keeps_list {item : Descriptor} {ws : List Value} (h : ∀ y ∈ ws, r.Keeps item y) :
    r.Keeps (.array item) (.list ws) := by
  intro x hx n
  cases hx with
  | @list xs _ hxs =>
    refine validate_list_eq_ok_iff.mpr ⟨xs, List.forall₂_same.mpr fun x hx => ?_, rfl⟩
    obtain ⟨y, hy, hrenumbered⟩ := Entries.exists_rel_of_mem hxs.flip hx
    exact h y hy x hrenumbered _

/-- The keys of a collection are the identifiers of its instances still. -/
theorem keeps_collection (hm : r.find? key = some (.model m)) {made : List (Text × Value)}
    (distinct : (made.map Prod.fst).Nodup)
    (agrees : ∀ e ∈ made, Collection.entryKey (m.identifierName?.bind (Collection.identifierOf? · e.2))
      (some (.str e.1)) = .ok e.1)
    (h : ∀ e ∈ made, r.Keeps (.named key) e.2) : r.Keeps (.map (.named key)) (Collection.toDict made) := by
  intro x hx n
  obtain ⟨again, rfl, hagain⟩ := hx.exists_collection
  have hkeys : again.map Prod.fst = made.map Prod.fst :=
    Entries.map_eq_of_forall₂ (hagain.flip.imp fun _ _ h => h.1)
  refine (validate_map_eq_ok_iff hm).mpr ⟨again, hkeys ▸ distinct, ?_, rfl⟩
  refine List.forall₂_map_left_iff.mpr (List.forall₂_same.mpr fun f hf => ?_)
  obtain ⟨e, he, hkey, hvalue⟩ := Entries.exists_rel_of_mem hagain.flip hf
  refine ⟨h e he f.2 hvalue _, ?_⟩
  simp only [hvalue.identifierOf?, hkey]
  exact agrees e he

theorem keeps_instance (hm : r.find? key = some (.model m)) (hf : m.fault? = none) (serial : Option Nat)
    (name : String) (attributes : Entries String) (held : Entries Value) :
    r.Keeps (.named key) (.instance serial key name attributes held) := by
  intro x hx n
  cases hx
  exact validate_instance hm hf _ _ _ _

theorem keeps_member {u : Union} (hu : r.find? key = some (.union u)) {serial : Option Nat}
    {model name : String} {attributes : Entries String} {held : Entries Value}
    (h : r.isInstanceOf (.instance serial model name attributes held) u.alternatives = .ok true) :
    r.Keeps (.named key) (.instance serial model name attributes held) := by
  intro x hx n
  cases hx with
  | record other =>
    rw [validate, hu]
    simp only [isInstanceOf_renumbered other serial, h]

/-- Behind the shapes of data a record is now found as an instance, which a union looks for before it tries
its alternatives. -/
theorem keeps_alternative {u : Union} (hu : r.find? key = some (.union u))
    (hv : r.isInstanceOf v u.alternatives = .ok false) (hd : d ∈ u.alternatives)
    (hm : ∃ m, r.record? d = some m) (h : r.validate unions d v = .ok w) : r.Keeps (.named key) w := by
  obtain ⟨m, hm⟩ := hm
  obtain ⟨k, rfl, hfind⟩ := record?_eq_some_iff.mp hm
  have hinstance (serial : Option Nat) (name : String) (attributes : Entries String) (held : Entries Value) :
      r.Keeps (.named key) (.instance serial k name attributes held) := by
    obtain ⟨found, hfound, hiff⟩ := isInstanceOf_of_fit (fault?_of_isInstanceOf hv)
      (.instance serial k name attributes held)
    obtain rfl : found = true := hiff.mpr ⟨k, m, serial, name, attributes, held, hd, hfind, rfl⟩
    exact keeps_member hu hfound
  cases byKey_of_validate h with
  | record => exact hinstance _ _ _ _
  | same => exact hinstance _ _ _ _
  | basic hk | enumeration hk | member hk | alternative hk => cases hfind.symm.trans hk

end Layers

/-- What was made is taken as it is, however the instances in it are numbered. -/
theorem keeps_of_validate (hd : r.OfModels d) (h : r.validate unions d v = .ok w) : r.Keeps d w := by
  induction unions, d, v using conversion_induction r.entries.length generalizing w with
  | step unions d v hlayer _ hparts =>
    cases d with
    | basic b =>
      obtain ⟨rfl, htakes⟩ := Basic.validate_eq_ok_iff.mp (validate_basic b v ▸ h)
      exact keeps_basic htakes
    | maybeNull inner =>
      rcases validate_maybeNull_eq_ok_iff.mp h with ⟨-, rfl⟩ | ⟨-, hinner⟩
      · exact keeps_null inner
      · exact (hlayer inner rfl (hd.of_part (.maybeNull inner)) hinner).maybeNull
    | array item =>
      obtain ⟨items, ws, hitems, hall, rfl⟩ := validate_array_eq_ok_iff.mp h
      refine keeps_list fun y hy => ?_
      obtain ⟨x, hx, hcheck⟩ := Entries.exists_rel_of_mem hall hy
      exact hparts item x (Value.sizeOf_item hitems hx) (hd.of_part (.array item)) hcheck
    | map item =>
      obtain ⟨key, m, given, made, rfl, hm, hgiven, distinct, hall, rfl⟩ := exists_given_of_validate h
      refine keeps_collection hm distinct (fun e he => ?_) fun e he => ?_
      · obtain ⟨g, -, henters⟩ := Entries.exists_rel_of_mem hall he
        exact agrees_of_enters henters
      · obtain ⟨g, hg, hcheck, -⟩ := Entries.exists_rel_of_mem hall he
        exact hparts (.named key) g.2 (Value.sizeOf_given hgiven hg) (hd.of_part (.map _)) hcheck
    | named key =>
      cases byKey_of_validate h with
      | basic hfind htakes =>
        intro x hx n
        rw [validate_named_basic hfind]
        exact Basic.validate_eq_ok_iff.mpr ⟨rfl, takes_renumbered htakes hx⟩
      | enumeration hfind hs =>
        intro x hx n
        cases hx
        rw [validate_named_enumeration hfind]
        exact Enumeration.validate_eq_ok_iff.mpr ⟨rfl, _, hs, rfl⟩
      | record hfind hf => exact keeps_instance hfind hf _ _ _ _
      | same hfind hf => exact keeps_instance hfind hf _ _ _ _
      | member hfind hv =>
        obtain ⟨_, _, _, _, _, -, rfl⟩ := exists_alternative_of_isInstanceOf hv
        exact keeps_member hfind hv
      | alternative hfind hv ha _ hok => exact keeps_alternative hfind hv ha (hd key _ .refl hfind _ ha) hok

/-- What a descriptor has made it makes again of itself, and the instances in it are kept: each that lists
and dictionaries lead to is the one that was there before. -/
theorem create_renumbered (hd : r.OfModels d) (h : r.create d v = .ok w) :
    r.create d w = .ok w ∧ ∀ x : Value, x.Renumbered w → r.create d x = .ok x := by
  obtain ⟨hends, hcheck⟩ := create_eq_ok_iff.mp h
  have hcreate : ∀ x : Value, x.Renumbered w → r.create d x = .ok x := fun x hx =>
    create_of_check hends (keeps_of_validate hd hcheck x hx r.entries.length)
  exact ⟨hcreate w (.refl w), hcreate⟩

/-- Data goes through the shapes of the alternatives, the instance that comes of it through none of them. -/
theorem create_renumbered_list :
    let first : Model := ⟨"A", [("x", .maybeNull .string)], true⟩
    let second : Model := ⟨"B", [("y", .maybeNull .number)], true⟩
    let u : Union := { alternatives := [.named "A", .named "B"], isSealed := true }
    let r : Registry := ⟨[("A", .model first), ("B", .model second), ("U", .union u)]⟩
    let d : Descriptor := .array (.named "U")
    let a (serial : Option Nat) : Value := .record serial "A" "A" [("x", .null)]
    r.OfModels d ∧ r.create d (.list [.dict []]) = .ok (.list [a none]) ∧
      r.create d (.list [a none]) = .ok (.list [a none]) ∧ r.create d (.list [a (some 7)]) = .ok (.list [a (some 7)]) := by
  intro first second u r d a
  have hA : r.find? "A" = some (.model first) := rfl
  have hB : r.find? "B" = some (.model second) := rfl
  have hU : r.find? "U" = some (.union u) := rfl
  have hfirst : first.fault? = none := by simp [first, Model.fault?]
  have hsecond : second.fault? = none := by simp [second, Model.fault?]
  have hmodels : r.OfModels d := by
    intro key v _ hv
    have hmem := Entries.mem_of_lookup hv
    simp only [r, List.mem_cons, Prod.mk.injEq, List.not_mem_nil, or_false] at hmem
    rcases hmem with ⟨-, h⟩ | ⟨-, h⟩ | ⟨-, h⟩ <;> cases h
    intro b hb
    rcases List.mem_pair.mp hb with rfl | rfl
    · exact ⟨first, rfl⟩
    · exact ⟨second, rfl⟩
  have hcreate : r.create d (.list [.dict []]) = .ok (.list [a none]) := by
    have hrecord (n : Nat) : r.validate n (.named "A") (.dict []) = .ok (a none) :=
      (validate_dict_eq_ok_iff hA hfirst).mpr ⟨by simp, [.null], .cons rfl .nil, rfl⟩
    have hunion : r.check (.named "U") (.dict []) = .ok (a none) := by
      have hplain : r.isInstanceOf (.dict []) u.alternatives = .ok false := by
        simp [u, isInstanceOf, record?_named hA, record?_named hB, hfirst, hsecond]
      rw [check, validate, hU]
      simp only [hplain, r, u, List.length_cons, List.length_nil, List.map_cons]
      rw [hrecord]
      rfl
    exact create_eq_ok_iff.mpr ⟨rfl, validate_list_eq_ok_iff.mpr ⟨[a none], .cons hunion .nil, rfl⟩⟩
  obtain ⟨hagain, hkept⟩ := create_renumbered hmodels hcreate
  exact ⟨hmodels, hcreate, hagain, hkept _ (.list (.cons (.record _ _ _ _ _ _) .nil))⟩

end Registry

end CheckedModels
