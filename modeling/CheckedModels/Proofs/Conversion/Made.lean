import CheckedModels.Proofs.Conversion.Accepted

/-! The values that each descriptor makes, and that conversions make no others. -/
namespace CheckedModels

namespace Registry

/-- A value that the descriptor can make. What is opaque may be anything whose instances are as their
models make them. -/
inductive Makes (r : Registry) : Descriptor → Value → Prop where
  | basic {b : Basic} {v : Value} (hb : b ≠ .frozen) (h : b.Takes v) : Makes r (.basic b) v
  | opaqueScalar (s : Scalar) : Makes r (.basic .frozen) (.scalar s)
  | opaqueList {items : List Value} (h : ∀ x ∈ items, Makes r (.basic .frozen) x) :
    Makes r (.basic .frozen) (.list items)
  | opaqueTuple {items : List Value} (h : ∀ x ∈ items, Makes r (.basic .frozen) x) :
    Makes r (.basic .frozen) (.tuple items)
  | opaqueDict {entries : List (Scalar × Value)} (h : ∀ e ∈ entries, Makes r (.basic .frozen) e.2) :
    Makes r (.basic .frozen) (.dict entries)
  | opaqueInstance {key : String} {m : Model} {serial : Option Nat} {properties : Entries Value}
    (h : r.find? key = some (.model m)) (hv : Makes r (.named key) (.record serial key m.name properties)) :
    Makes r (.basic .frozen) (.record serial key m.name properties)
  | null (inner : Descriptor) : Makes r (.maybeNull inner) .null
  | present {inner : Descriptor} {v : Value} (h : Makes r inner v) : Makes r (.maybeNull inner) v
  | array {item : Descriptor} {items : List Value} (h : ∀ x ∈ items, Makes r item x) :
    Makes r (.array item) (.list items)
  | map {key : String} {m : Model} {made : List (Text × Value)} (h : r.find? key = some (.model m))
    (distinct : (made.map Prod.fst).Nodup)
    (agrees : ∀ e ∈ made, Collection.entryKey (m.identifierName?.bind (Collection.identifierOf? · e.2))
      (some (.str e.1)) = .ok e.1)
    (hv : ∀ e ∈ made, Makes r (.named key) e.2) : Makes r (.map (.named key)) (Collection.toDict made)
  | scalar {key : String} {b : Basic} {v : Value} (h : r.find? key = some (.basic b))
    (hv : Makes r (.basic b) v) : Makes r (.named key) v
  | enumeration {key : String} {e : Enumeration} {s : String} (h : r.find? key = some (.enumeration e))
    (hs : s ∈ e.values) : Makes r (.named key) (.str s)
  | model {key : String} {m : Model} {serial : Option Nat} {properties : Entries Value}
    (h : r.find? key = some (.model m)) (fit : m.fault? = none)
    (same : Entries.keys properties = m.properties.keys)
    (hv : ∀ e ∈ m.properties.zip properties, Makes r e.1.2 e.2.2) :
    Makes r (.named key) (.record serial key m.name properties)
  | union {key : String} {u : Union} {d : Descriptor} {v : Value} (h : r.find? key = some (.union u))
    (hd : d ∈ u.alternatives) (hv : Makes r d v) : Makes r (.named key) v

/-- Raw data, instances, and mixtures of both: what can be written down, what conversions return, and
what can be taken out of these. -/
inductive Given (r : Registry) : Value → Prop where
  | scalar (s : Scalar) : Given r (.scalar s)
  | list {items : List Value} (h : ∀ x ∈ items, Given r x) : Given r (.list items)
  | tuple {items : List Value} (h : ∀ x ∈ items, Given r x) : Given r (.tuple items)
  | dict {entries : List (Scalar × Value)} (h : ∀ e ∈ entries, Given r e.2) : Given r (.dict entries)
  | created {d : Descriptor} {v w : Value} (hv : Given r v) (h : r.create d v = .ok w) : Given r w
  | numbered {v : Value} (hv : Given r v) (n : Nat) : Given r (v.withSerial n)
  | item {v x : Value} {items : List Value} (hv : Given r v) (h : v.items? = some items) (hx : x ∈ items) :
    Given r x
  | entry {entries : List (Scalar × Value)} {e : Scalar × Value} (h : Given r (.dict entries))
    (he : e ∈ entries) : Given r e.2
  | read {v x : Value} {name : String} (hv : Given r v) (h : v.attribute? name = some x) : Given r x

variable {r : Registry} {d : Descriptor} {v w : Value} {key : String} {m : Model}

namespace Makes

theorem of_basic {b : Basic} (hv : r.Makes (.basic .frozen) v) (h : b.validate v = .ok w) :
    r.Makes (.basic b) w := by
  obtain ⟨rfl, htakes⟩ := Basic.validate_eq_ok_iff.mp h
  by_cases hb : b = .frozen
  · subst hb
    exact hv
  · exact .basic hb htakes

/-- A model makes instances that have a value for each property. -/
theorem exists_instance (h : r.find? key = some (.model m)) (hv : r.Makes (.named key) v) :
    m.fault? = none ∧ ∃ serial properties,
      v = .record serial key m.name properties ∧ Entries.Related r.Makes m.properties properties := by
  cases hv with
  | scalar hfind _ | union hfind _ _ | enumeration hfind _ => simp [h] at hfind
  | @model _ _ serial properties hfind fit same hv =>
    obtain rfl : m = _ := by simpa [h] using hfind
    exact ⟨fit, serial, properties, rfl, Entries.related_iff_zip.mpr ⟨same, hv⟩⟩

theorem opaque_of (h : r.Makes d v) : r.Makes (.basic .frozen) v := by
  induction h with
  | basic hb htakes =>
    obtain ⟨s, rfl⟩ := htakes.exists_scalar hb
    exact .opaqueScalar s
  | opaqueScalar s => exact .opaqueScalar s
  | opaqueList h _ => exact .opaqueList h
  | opaqueTuple h _ => exact .opaqueTuple h
  | opaqueDict h _ => exact .opaqueDict h
  | opaqueInstance h hv _ => exact .opaqueInstance h hv
  | null => exact .opaqueScalar _
  | present _ ih | scalar _ _ ih | union _ _ _ ih => exact ih
  | array _ ih => exact .opaqueList ih
  | map _ _ _ _ ih =>
    refine .opaqueDict fun e he => ?_
    obtain ⟨entry, hentry, rfl⟩ := List.mem_map.mp he
    exact ih entry hentry
  | enumeration => exact .opaqueScalar _
  | model h fit same hv _ => exact .opaqueInstance h (.model h fit same hv)

/-- An opaque instance is one that its model makes. -/
theorem exists_record {serial : Option Nat} {name : String} {attributes : Entries String}
    {held : Entries Value}
    (h : r.Makes (.basic .frozen) (.instance serial key name attributes held)) :
    ∃ m properties, r.find? key = some (.model m) ∧
      Value.instance serial key name attributes held = .record serial key m.name properties ∧
      r.Makes (.named key) (.record serial key m.name properties) := by
  generalize hv : Value.instance serial key name attributes held = v at h
  cases h with
  | basic hb _ => exact absurd rfl hb
  | opaqueScalar | opaqueList | opaqueTuple | opaqueDict => cases hv
  | @opaqueInstance _ m _ properties hm hmade =>
    obtain ⟨rfl, rfl, rfl, -⟩ := Value.instance.inj hv
    exact ⟨m, properties, hm, rfl, hmade⟩

theorem of_entry {entries : List (Scalar × Value)} (h : r.Makes (.basic .frozen) (.dict entries))
    {e : Scalar × Value} (he : e ∈ entries) : r.Makes (.basic .frozen) e.2 := by
  cases h with
  | basic hb _ => exact absurd rfl hb
  | opaqueDict hall => exact hall e he

theorem of_held {serial : Option Nat} {name : String} {attributes : Entries String} {held : Entries Value}
    (h : r.Makes (.basic .frozen) (.instance serial key name attributes held)) {e : String × Value}
    (he : e ∈ held) : r.Makes (.basic .frozen) e.2 := by
  obtain ⟨m, properties, hm, heq, hmade⟩ := h.exists_record
  obtain ⟨-, _, _, hsame, hrelated⟩ := hmade.exists_instance hm
  obtain ⟨-, -, -, rfl⟩ := Value.record_inj.mp hsame
  obtain ⟨-, -, -, -, rfl⟩ := Value.instance.inj heq
  obtain ⟨p, hp, rfl⟩ := List.mem_map.mp he
  obtain ⟨q, hq, -, hvalue⟩ := hrelated.exists_of_mem hp
  exact hvalue.opaque_of

theorem of_item (h : r.Makes (.basic .frozen) v) {items : List Value} (hv : v.items? = some items)
    {x : Value} (hx : x ∈ items) : r.Makes (.basic .frozen) x := by
  cases v with
  | scalar | dict => cases hv
  | list given =>
    obtain rfl := Option.some.inj hv
    cases h with
    | basic hb _ => exact absurd rfl hb
    | opaqueList hall => exact hall x hx
  | tuple given =>
    obtain rfl := Option.some.inj hv
    cases h with
    | basic hb _ => exact absurd rfl hb
    | opaqueTuple hall => exact hall x hx
  | «instance» serial key name attributes held =>
    obtain rfl := Option.some.inj hv
    obtain ⟨e, he, rfl⟩ := List.mem_map.mp hx
    refine .opaqueTuple fun y hy => ?_
    rcases List.mem_pair.mp hy with rfl | rfl
    · exact .opaqueScalar _
    · exact h.of_held he

theorem of_given (h : r.Makes (.basic .frozen) v) {given : List (Option Scalar × Value)}
    (hv : v.given? = some given) {g : Option Scalar × Value} (hg : g ∈ given) :
    r.Makes (.basic .frozen) g.2 := by
  unfold Value.given? at hv
  split at hv
  · obtain rfl := Option.some.inj hv
    obtain ⟨e, he, rfl⟩ := List.mem_map.mp hg
    exact h.of_entry he
  · obtain ⟨items, hitems, rfl⟩ := Option.map_eq_some_iff.mp hv
    obtain ⟨x, hx, rfl⟩ := List.mem_map.mp hg
    exact h.of_item hitems hx

end Makes

/-- An instance that a union takes as it is belongs to an alternative. -/
theorem exists_alternative_of_isInstanceOf {ds : List Descriptor} (h : r.isInstanceOf v ds = .ok true) :
    ∃ key serial name attributes held, .named key ∈ ds ∧
      v = .instance serial key name attributes held := by
  induction ds with
  | nil => cases h
  | cons d rest ih =>
    have htail (h : r.isInstanceOf v rest = .ok true) : ∃ key serial name attributes held,
        .named key ∈ d :: rest ∧ v = .instance serial key name attributes held := by
      obtain ⟨key, serial, name, attributes, held, hmem, rfl⟩ := ih h
      exact ⟨key, serial, name, attributes, held, List.mem_cons_of_mem _ hmem, rfl⟩
    unfold isInstanceOf at h
    split at h
    · next key m hm =>
      split at h
      · cases h
      · cases h
      · split at h
        · next serial model name attributes held =>
          split at h
          · next heq =>
            subst heq
            exact ⟨_, serial, name, attributes, held, List.mem_cons_self, rfl⟩
          · exact htail h
        · exact htail h
    · exact htail h

theorem agrees_of_enters {name : Option String} {part : Option Scalar × Outcome} {e : Text × Value}
    (h : Collection.Enters name part e) : Collection.entryKey
      (name.bind (Collection.identifierOf? · e.2)) (some (.str e.1)) = .ok e.1 := by
  obtain ⟨-, hkey⟩ := h
  generalize name.bind (Collection.identifierOf? · e.2) = own at hkey ⊢
  unfold Collection.entryKey at hkey ⊢
  split at hkey <;> simp_all [Outcome.reject]
  split at hkey <;> simp_all

section Layers

variable {unions : Nat}

theorem Makes.of_array {item : Descriptor} {items : List Value} (hv : v.items? = some items)
    (hitems : ∀ x ∈ items, ∀ y, r.check item x = .ok y → r.Makes item y)
    (h : r.validate unions (.array item) v = .ok w) : r.Makes (.array item) w := by
  obtain ⟨_, ws, hgiven, hall, rfl⟩ := validate_array_eq_ok_iff.mp h
  obtain rfl := Option.some.inj (hgiven.symm.trans hv)
  refine .array fun y hy => ?_
  obtain ⟨x, hx, hcheck⟩ := Entries.exists_rel_of_mem hall hy
  exact hitems x hx y hcheck

theorem Makes.of_map {item : Descriptor}
    (hgiven : ∀ given, v.given? = some given → ∀ g ∈ given, ∀ y, r.check item g.2 = .ok y → r.Makes item y)
    (h : r.validate unions (.map item) v = .ok w) : r.Makes (.map item) w := by
  obtain ⟨key, m, given, made, rfl, hm, hv, distinct, hall, rfl⟩ := exists_given_of_validate h
  refine .map hm distinct (fun e he => ?_) fun e he => ?_
  · obtain ⟨g, -, henters⟩ := Entries.exists_rel_of_mem hall he
    exact agrees_of_enters henters
  · obtain ⟨g, hg, henters⟩ := Entries.exists_rel_of_mem hall he
    exact hgiven given hv g hg e.2 henters.1

/-- An instance is made of what its properties are made into. -/
theorem Makes.of_parts {entries : List (Scalar × Value)} {parts : List Value} (hm : r.find? key = some (.model m))
    (hf : m.fault? = none) (hparts : List.Forall₂ (fun p y => r.part entries p = .ok y) m.properties parts)
    (hentries : ∀ p ∈ m.properties, ∀ x, Value.under? entries p.1 = some x → ∀ y,
      r.check p.2 x = .ok y → r.Makes p.2 y) : r.Makes (.named key) (m.build key parts) := by
  have hmade : List.Forall₂ (fun (p : String × Descriptor) y => r.Makes p.2 y) m.properties parts := by
    refine List.forall₂_iff_zip.mpr ⟨hparts.length_eq, fun {p y} hmem => ?_⟩
    have hpart : r.part entries p = .ok y := (List.forall₂_iff_zip.mp hparts).2 hmem
    unfold part at hpart
    split at hpart
    · next x hx => exact hentries p (List.of_mem_zip hmem).1 x hx y (embed_eq_ok_iff.mp hpart)
    · obtain ⟨inner, hinner, hnull⟩ := omitted_eq_ok_iff.mp hpart
      rw [hinner, hnull]
      exact .null inner
  obtain ⟨same, hall⟩ := Entries.related_iff_zip.mp (Entries.forall₂_zip_keys hmade :
    Entries.Related r.Makes m.properties (m.properties.keys.zip parts))
  exact .model hm hf same hall

/-- What is registered under the key makes of the value what the descriptor can make. -/
theorem Makes.of_named (hv : r.Makes (.basic .frozen) v)
    (hentries : ∀ entries, v = .dict entries → ∀ m : Model, ∀ p ∈ m.properties, ∀ x,
      Value.under? entries p.1 = some x → ∀ y, r.check p.2 x = .ok y → r.Makes p.2 y)
    (halternatives : ∀ n a, n < unions → r.validate n a v = .ok w → r.Makes a w)
    (h : r.ByKey unions key v w) : r.Makes (.named key) w := by
  cases h with
  | @basic b _ hfind htakes => exact .scalar hfind (.of_basic hv (Basic.validate_eq_ok_iff.mpr ⟨rfl, htakes⟩))
  | enumeration hfind hs => exact .enumeration hfind hs
  | @record m entries parts hfind hf hparts => exact .of_parts hfind hf hparts (hentries entries rfl m)
  | same =>
    obtain ⟨_, properties, -, heq, hmade⟩ := hv.exists_record
    exact heq ▸ hmade
  | member hfind hinstance =>
    obtain ⟨_, serial, name, attributes, held, hmem, rfl⟩ := exists_alternative_of_isInstanceOf hinstance
    obtain ⟨_, properties, -, heq, hmade⟩ := hv.exists_record
    exact .union hfind hmem (heq ▸ hmade)
  | alternative hfind _ ha hn hok => exact .union hfind ha (halternatives _ _ hn hok)

end Layers

/-- From data whose instances are as their models make them a conversion makes what its descriptor can
make. -/
theorem makes_of_validate {unions : Nat} (hv : r.Makes (.basic .frozen) v)
    (h : r.validate unions d v = .ok w) : r.Makes d w := by
  induction unions, d, v using conversion_induction r.entries.length generalizing w with
  | step unions d v hlayer halternatives hparts =>
    cases d with
    | basic b => exact .of_basic hv (validate_basic b v ▸ h)
    | maybeNull inner =>
      rcases validate_maybeNull_eq_ok_iff.mp h with ⟨-, rfl⟩ | ⟨-, hinner⟩
      · exact .null inner
      · exact .present (hlayer inner rfl hv hinner)
    | array item =>
      obtain ⟨items, -, hitems, -⟩ := validate_array_eq_ok_iff.mp h
      refine .of_array hitems (fun x hx y hy => ?_) h
      exact hparts item x (Value.sizeOf_item hitems hx) (hv.of_item hitems hx) hy
    | map item =>
      refine .of_map (fun given hgiven g hg y hy => ?_) h
      exact hparts item g.2 (Value.sizeOf_given hgiven hg) (hv.of_given hgiven hg) hy
    | named key =>
      refine .of_named hv ?_ (fun n a hn hok => ?_) (byKey_of_validate h)
      · rintro entries rfl m p - x hx y hy
        have hsize : sizeOf x < sizeOf (Value.dict entries) := Nat.lt_trans (Value.sizeOf_under hx) (by simp)
        exact hparts p.2 x hsize (hv.of_entry (Value.mem_of_under? hx)) hy
      · exact halternatives n a hn hv hok

theorem makes_of_create (hv : r.Makes (.basic .frozen) v) (h : r.create d v = .ok w) : r.Makes d w := by
  have hinput : r.Makes (.basic .frozen) (r.input d v) := by
    unfold input
    split
    · exact .opaqueDict (by simp)
    · exact hv
  exact makes_of_validate hinput (create_eq_ok_iff.mp h).2

/-- A number changes nothing about how an instance was made. -/
theorem Makes.withSerial (hv : r.Makes (.basic .frozen) v) (n : Nat) :
    r.Makes (.basic .frozen) (v.withSerial n) := by
  unfold Value.withSerial
  split
  · next key name attributes held =>
    obtain ⟨m, properties, hm, heq, hmade⟩ := hv.exists_record
    obtain ⟨fit, _, _, hsame, hrelated⟩ := hmade.exists_instance hm
    obtain ⟨-, -, -, rfl⟩ := Value.record_inj.mp hsame
    obtain ⟨-, -, rfl, rfl, rfl⟩ := Value.instance.inj heq
    obtain ⟨same, hall⟩ := Entries.related_iff_zip.mp hrelated
    exact .opaqueInstance hm (.model hm fit same hall)
  · exact hv

/-- Whatever values come about, their instances are as their models make them. -/
theorem Given.opaque_makes (h : r.Given v) : r.Makes (.basic .frozen) v := by
  induction h with
  | scalar s => exact .opaqueScalar s
  | list _ ih => exact .opaqueList ih
  | tuple _ ih => exact .opaqueTuple ih
  | dict _ ih => exact .opaqueDict ih
  | created _ hcreate ih => exact (makes_of_create ih hcreate).opaque_of
  | numbered _ n ih => exact ih.withSerial n
  | item _ hitems hx ih => exact ih.of_item hitems hx
  | entry _ he ih => exact ih.of_entry he
  | @read v x name _ hx ih =>
    unfold Value.attribute? at hx
    split at hx
    · exact ih.of_held (Entries.mem_of_lookup hx)
    · cases hx

end Registry

end CheckedModels
