import CheckedModels.Proofs.Registry.FreshKey
import CheckedModels.Session.Basic

/-! What a single call does to the definitions of a session. -/
namespace CheckedModels

variable {r : Registry} {s : Session} {call : Call} {reply : Reply} {key : String}

/-- Whether a definition stays as it is. -/
def Definition.isSealed : Definition → Bool
  | .model m => m.isSealed
  | .union u => u.isSealed
  | .basic _ | .enumeration _ => true

def Definition.properties? : Definition → Option (Entries Descriptor)
  | .model m => some m.properties
  | _ => none

def Definition.alternatives? : Definition → Option (List Descriptor)
  | .union u => some u.alternatives
  | _ => none

/-- The properties that a call has given to the model under a key. -/
def Call.propertiesOf? (key : String) : Call × Reply → Option (Entries Descriptor)
  | (.build d, .introduced made) => if made = .named key then d.properties? else none
  | (.define k properties, .done) => if k = key then some properties else none
  | _ => none

/-- The alternatives that a call has given to the union under a key. -/
def Call.alternativesOf? (key : String) : Call × Reply → Option (List Descriptor)
  | (.build d, .introduced made) => if made = .named key then d.alternatives? else none
  | (.defineUnion k alternatives, .done) => if k = key then some alternatives else none
  | _ => none

def Call.seals (key : String) : Call × Reply → Bool
  | (.build d, .introduced made) => d.isSealed && made == .named key
  | (.sealUp k, .done) => k == key
  | _ => false

/-- A model has one identifier at most. -/
def Definition.Identified (d : Definition) : Prop :=
  ∀ m, d = .model m → (Model.identifierKeys m.properties).length ≤ 1

theorem Definition.identified_model {m : Model} :
    (Definition.model m).Identified ↔ (Model.identifierKeys m.properties).length ≤ 1 := by
  simp [Identified]

theorem Definition.identified_union (u : Union) : (Definition.union u).Identified := by
  simp [Identified]

namespace Session

/-- What a call does to the definition under a key, if there was one. -/
inductive Defines (key : String) : Option Definition → Call → Reply → Definition → Prop where
  | build {d : Definition} {n : Nat} (hkey : key = Registry.numberedKey d.label n) (h : d.Identified) :
    Defines key none (.build d) (.introduced (.named key)) d
  | define {m : Model} (hs : m.isSealed = false) {properties : Entries Descriptor}
    (h : (Model.identifierKeys properties).length ≤ 1) :
    Defines key (some (.model m)) (.define key properties) .done (.model { m with properties })
  | defineUnion {u : Union} (hs : u.isSealed = false) (alternatives : List Descriptor) :
    Defines key (some (.union u)) (.defineUnion key alternatives) .done (.union { u with alternatives })
  | sealModel (m : Model) : Defines key (some (.model m)) (.sealUp key) .done (.model m.seal)
  | sealUnion (u : Union) : Defines key (some (.union u)) (.sealUp key) .done (.union u.seal)

/-- A reply that reports no change. -/
def Idle (reply : Reply) : Prop := reply ≠ .done ∧ ∀ d, reply ≠ .introduced d

/-- What a call does to the definitions: at most one of them changes. -/
inductive Change (r : Registry) (call : Call) (reply : Reply) : Registry → Prop where
  | none (h : Idle reply) : Change r call reply r
  | one {key : String} {d : Definition} {after : Registry} (h : Defines key (r.find? key) call reply d)
    (hfind : ∀ k, after.find? k = if k = key then some d else r.find? k) (hn : after.Numbered) :
    Change r call reply after

theorem change_replace (hn : s.registry.Numbered) {before d : Definition}
    (hfind : s.registry.find? key = some before) (h : Defines key (some before) call reply d) :
    Change s.registry call reply (s.registry.replace key d) := by
  have hk : key ∈ s.registry.keys := by
    rw [Registry.keys, ← Entries.lookup_isSome_iff, ← Registry.find?, hfind]
    rfl
  exact .one (hfind ▸ h) (s.registry.find?_replace key · d) (hn.replace hk d)

theorem change_introduce (hn : s.registry.Numbered) (d : Definition) (h : d.Identified) :
    Change s.registry (.build d) (.introduced (s.registry.introduce d.label d).2)
      (s.registry.introduce d.label d).1 := by
  have hnone : s.registry.find? (s.registry.freshKey d.label) = none :=
    Entries.lookup_eq_none_iff.mpr (hn.freshKey_not_mem d.label)
  refine .one ?_ (hn.find?_introduce d.label · d) (hn.introduce d.label d)
  rw [hnone]
  exact .build rfl h

/-- A new definition is refused only if it is a model with several identifiers. -/
theorem approve_eq_ok_iff {d : Definition} : d.approve = .ok () ↔ d.Identified := by
  cases d with
  | model m =>
    rw [Definition.identified_model]
    unfold Definition.approve Model.define
    by_cases h : 1 < (Model.identifierKeys m.properties).length
    · simp only [Bool.false_eq_true, if_false, if_pos h]
      exact ⟨fun hok => (by cases hok), fun hle => absurd hle (by omega)⟩
    · simp only [Bool.false_eq_true, if_false, if_neg h]
      exact ⟨fun _ => by omega, fun _ => rfl⟩
  | basic | enumeration | union => simp [Definition.approve, Definition.Identified, pure, Except.pure]

theorem isSealed_of_define {m n : Model} {properties : Entries Descriptor}
    (h : m.define properties = .ok n) : m.isSealed = false ∧
      (Model.identifierKeys properties).length ≤ 1 ∧ n = { m with properties } := by
  unfold Model.define at h
  split at h
  · cases h
  · next hs =>
    dsimp only at h
    split at h
    · cases h
    · next hids =>
      exact ⟨by simpa using hs, by omega, (Except.ok.inj h).symm⟩

theorem isSealed_of_defineUnion {u v : Union} {name : Option String} {alternatives : List Descriptor}
    (h : u.define name alternatives = .ok v) : u.isSealed = false ∧ v = { u with alternatives } := by
  unfold Union.define at h
  split at h
  · cases h
  · next hs => exact ⟨by simpa using hs, (Except.ok.inj h).symm⟩

/-- Everything that a call can do to the definitions. -/
theorem step_change (hn : s.registry.Numbered) (call : Call) :
    Change s.registry call (s.step call).1 (s.step call).2.registry := by
  cases call with
  | build d =>
    unfold step build
    dsimp only
    split
    · next hd => exact change_introduce hn d (approve_eq_ok_iff.mp hd)
    · exact .none ⟨by simp, by simp⟩
  | define key properties =>
    unfold step define
    dsimp only
    split
    · next m hfind =>
      unfold Registry.defineModel
      cases hm : m.define properties with
      | error e => exact .none ⟨by simp, by simp⟩
      | ok n =>
        obtain ⟨hs, hids, rfl⟩ := isSealed_of_define hm
        exact change_replace hn hfind (.define hs hids)
    · exact .none ⟨by simp, by simp⟩
  | defineUnion key alternatives =>
    unfold step defineUnion
    dsimp only
    split
    · next u hfind =>
      unfold Registry.defineUnion
      cases hu : u.define (s.registry.typeName? (.named key)) alternatives with
      | error e => exact .none ⟨by simp, by simp⟩
      | ok n =>
        obtain ⟨hs, rfl⟩ := isSealed_of_defineUnion hu
        exact change_replace hn hfind (.defineUnion hs alternatives)
    · exact .none ⟨by simp, by simp⟩
  | sealUp key =>
    unfold step sealUp
    dsimp only
    split
    · next m hfind => exact change_replace hn hfind (.sealModel m)
    · next u hfind => exact change_replace hn hfind (.sealUnion u)
    · exact .none ⟨by simp, by simp⟩
  | create d v => exact .none ⟨by simp [step], by simp [step]⟩
  | isValid d v => exact .none ⟨by simp [step], by simp [step]⟩

namespace Change

variable {after : Registry}

theorem numbered (h : Change r call reply after) (hn : r.Numbered) : after.Numbered := by
  cases h with
  | none => exact hn
  | one _ _ hafter => exact hafter

/-- A part of the definitions under a key that some calls set, such as the properties of a model. -/
theorem observe {α : Type} {view : Definition → Option α} {given : Call × Reply → Option α}
    (h : Change r call reply after) (key : String)
    (hidle : Idle reply → given (call, reply) = .none)
    (hother : ∀ {k before d}, key ≠ k → Defines k before call reply d →
      given (call, reply) = .none)
    (hself : ∀ {before d}, Defines key before call reply d →
      view d = (given (call, reply)).or (before.bind view)) :
    (after.find? key).bind view = (given (call, reply)).or ((r.find? key).bind view) := by
  cases h with
  | none h => rw [hidle h, Option.none_or]
  | @one k d _ h hfind =>
    rw [hfind]
    by_cases hk : key = k
    · subst hk
      rw [if_pos rfl, ← hself h, Option.bind_some]
    · rw [if_neg hk, hother hk h, Option.none_or]

theorem properties? (h : Change r call reply after) (key : String) :
    (after.find? key).bind Definition.properties? =
      (Call.propertiesOf? key (call, reply)).or ((r.find? key).bind Definition.properties?) := by
  refine h.observe key (fun h => ?_) (fun hk h => ?_) fun h => ?_
  · unfold Call.propertiesOf?
    split <;> simp_all [Idle]
  · cases h <;> simp [Call.propertiesOf?, Ne.symm hk]
  · cases h <;> simp [Call.propertiesOf?, Definition.properties?, Model.seal]

theorem alternatives? (h : Change r call reply after) (key : String) :
    (after.find? key).bind Definition.alternatives? =
      (Call.alternativesOf? key (call, reply)).or ((r.find? key).bind Definition.alternatives?) := by
  refine h.observe key (fun h => ?_) (fun hk h => ?_) fun h => ?_
  · unfold Call.alternativesOf?
    split <;> simp_all [Idle]
  · cases h <;> simp [Call.alternativesOf?, Ne.symm hk]
  · cases h <;> simp [Call.alternativesOf?, Definition.alternatives?, Union.seal]

theorem isSealed (h : Change r call reply after) (key : String) :
    (after.find? key).any Definition.isSealed =
      (Call.seals key (call, reply) || (r.find? key).any Definition.isSealed) := by
  cases h with
  | none h =>
    have hnone : Call.seals key (call, reply) = false := by
      unfold Call.seals
      split <;> simp_all [Idle]
    rw [hnone, Bool.false_or]
  | @one k d _ h hfind =>
    rw [hfind]
    by_cases hk : key = k
    · subst hk
      rw [if_pos rfl]
      generalize r.find? key = before at h
      cases h <;> simp [Call.seals, Definition.isSealed, Model.seal, Union.seal, *]
    · have hnone : Call.seals key (call, reply) = false := by
        generalize r.find? k = before at h
        cases h <;> simp [Call.seals, Ne.symm hk]
      rw [if_neg hk, hnone, Bool.false_or]

theorem find?_of_sealed (h : Change r call reply after) {d : Definition} (hd : r.find? key = some d)
    (hs : d.isSealed = true) : after.find? key = some d := by
  cases h with
  | none => exact hd
  | @one k _ _ h hfind =>
    rw [hfind]
    split
    · next heq =>
      rw [heq] at hd
      rw [hd] at h
      cases h with
      | define hm _ | defineUnion hm _ => simp [Definition.isSealed, hm] at hs
      | sealModel m =>
        obtain ⟨name, properties, isSealed⟩ := m
        obtain rfl : isSealed = true := hs
        rfl
      | sealUnion u =>
        obtain ⟨name, alternatives, isSealed⟩ := u
        obtain rfl : isSealed = true := hs
        rfl
    · exact hd

/-- A definition keeps its label, and at most one identifier. -/
theorem labelled (h : Change r call reply after)
    (hr : ∀ key d, r.find? key = some d →
      d.Identified ∧ ∃ n, key = Registry.numberedKey d.label n)
    (key : String) (d : Definition) (hd : after.find? key = some d) :
    d.Identified ∧ ∃ n, key = Registry.numberedKey d.label n := by
  cases h with
  | none => exact hr key d hd
  | @one k _ _ h hfind =>
    rw [hfind] at hd
    split at hd
    · next heq =>
      subst heq
      obtain rfl := Option.some.inj hd
      generalize hbefore : r.find? key = before at h
      cases h with
      | build hkey hids => exact ⟨hids, _, hkey⟩
      | define _ hids => exact ⟨Definition.identified_model.mpr hids, (hr key _ hbefore).2⟩
      | defineUnion => exact ⟨Definition.identified_union _, (hr key _ hbefore).2⟩
      | sealModel m =>
        obtain ⟨hids, hlabel⟩ := hr key _ hbefore
        have hle : (Model.identifierKeys m.properties).length ≤ 1 :=
          Definition.identified_model.mp hids
        exact ⟨Definition.identified_model.mpr hle, hlabel⟩
      | sealUnion u => exact ⟨Definition.identified_union _, (hr key _ hbefore).2⟩
    · exact hr key d hd

end Change

end Session

end CheckedModels
