import CheckedModels.Proofs.Conversion.Validate
import CheckedModels.Session.Validate

/-! What is kept of earlier conversions leaves the later ones as they would be without. -/
namespace CheckedModels

variable {α β : Type} {r : Registry}

/-- The validators that a descriptor may have. -/
inductive Registry.Fits (r : Registry) : Validator → Descriptor → Prop where
  | record {key : String} {m : Model} (h : r.find? key = some (.model m)) (hf : m.fault? = none) :
    Fits r (.record key m.toClass) (.named key)
  | layers (d : Descriptor) : Fits r (.layers d) d

/-- The caches agree with the definitions. -/
structure Caches.Coherent (c : Caches) (r : Registry) : Prop where
  classes : ∀ key made, c.classes.lookup key = some made →
    ∃ m, r.find? key = some (.model m) ∧ m.fault? = none ∧ made = m.toClass
  validators : ∀ d s, c.validators.lookup d = some s → r.Fits s d

theorem Caches.coherent_empty (r : Registry) : Caches.Coherent {} r := ⟨by simp, by simp⟩

namespace Cached

theorem go_bind_ok {x : Cached α} {c after : Caches} {a : α} (h : x.go c = (.ok a, after))
    (f : α → Cached β) : (x >>= f).go c = (f a).go after := by
  unfold go at *
  rw [ExceptT.run_bind, StateT.run_bind, h]
  rfl

theorem go_bind_error {x : Cached α} {c after : Caches} {e : Failure} (h : x.go c = (.error e, after))
    (f : α → Cached β) : (x >>= f).go c = (.error e, after) := by
  unfold go at *
  rw [ExceptT.run_bind, StateT.run_bind, h]
  rfl

theorem go_via {x : Cached α} {c after : Caches} {o : Except Failure α} (h : x.go c = (o, after))
    (f : Except Failure α → Except Failure β) : (via f x).go c = (f o, after) := by
  unfold go at *
  unfold via
  rw [ExceptT.run_mk, StateT.run_map, h]
  rfl

/-- From coherent caches the conversion comes to such an outcome, and to coherent caches. -/
def Yields (r : Registry) (x : Cached α) (Q : Except Failure α → Prop) : Prop :=
  ∀ c : Caches, c.Coherent r → ∃ o after, x.go c = (o, after) ∧ Q o ∧ after.Coherent r

/-- The outcome is this one as long as all names are finite. A validator that was made while its name was
finite may outlive that. -/
def Agrees (r : Registry) (expected o : Except Failure α) : Prop := r.AllNamed → o = expected

variable {P : Except Failure α → Prop} {Q : Except Failure β → Prop}

theorem yields_of {o : Except Failure α} (h : P o) : Yields r (of o) P := fun c hc => ⟨o, c, rfl, h, hc⟩

theorem yields_pure {a : α} (h : P (.ok a)) : Yields r (pure a) P := yields_of h

theorem yields_throw {e : Failure} (h : P (.error e)) : Yields r (throw e : Cached α) P := yields_of h

theorem agrees_of (o : Except Failure α) : Yields r (of o) (Agrees r o) := yields_of fun _ => rfl

theorem Yields.bind {x : Cached α} (hx : Yields r x P) {f : α → Cached β}
    (hok : ∀ a, P (.ok a) → Yields r (f a) Q) (herror : ∀ e, P (.error e) → Q (.error e)) :
    Yields r (x >>= f) Q := by
  intro c hc
  obtain ⟨o, mid, hgo, ho, hmid⟩ := hx c hc
  cases o with
  | ok a =>
    rw [go_bind_ok hgo]
    exact hok a ho mid hmid
  | error e => exact ⟨.error e, mid, go_bind_error hgo f, herror e ho, hmid⟩

/-- What is certain to succeed is followed by the rest. -/
theorem Yields.bind_ok {x : Cached α} {a : α} (hx : Yields r x (· = .ok a)) {f : α → Cached β}
    (hf : Yields r (f a) Q) : Yields r (x >>= f) Q :=
  hx.bind (fun _ h => Except.ok.inj h ▸ hf) nofun

theorem Yields.bind_error {x : Cached α} {e : Failure} (hx : Yields r x (· = .error e))
    {f : α → Cached β} (he : Q (.error e)) : Yields r (x >>= f) Q :=
  hx.bind nofun fun _ h => Except.error.inj h ▸ he

theorem Yields.bind_agrees {x : Cached α} {o : Except Failure α} (hx : Yields r x (Agrees r o))
    {f : α → Cached β} {g : α → Except Failure β} (hf : ∀ a, Yields r (f a) (Agrees r (g a))) :
    Yields r (x >>= f) (Agrees r (o >>= g)) := by
  refine hx.bind (fun a ha c hc => ?_) fun e he hr => ?_
  · obtain ⟨made, after, hgo, hmade, hafter⟩ := hf a c hc
    refine ⟨made, after, hgo, fun hr => ?_, hafter⟩
    rw [hmade hr, ← ha hr]
    rfl
  · rw [← he hr]
    rfl

theorem Yields.via {x : Cached α} (hx : Yields r x P) {f : Except Failure α → Except Failure β}
    (h : ∀ o, P o → Q (f o)) : Yields r (Cached.via f x) Q := by
  intro c hc
  obtain ⟨o, after, hgo, ho, hafter⟩ := hx c hc
  exact ⟨f o, after, go_via hgo f, h o ho, hafter⟩

theorem Yields.via_agrees {x : Cached α} {o : Except Failure α} (hx : Yields r x (Agrees r o))
    (f : Except Failure α → Except Failure β) : Yields r (Cached.via f x) (Agrees r (f o)) :=
  hx.via fun _ h hr => congrArg f (h hr)

/-- Whatever a part comes to, the rest goes on from there. -/
theorem Yields.attempt_bind {x : Cached α} (hx : Yields r x P) {f : Except Failure α → Cached β}
    (hf : ∀ o, P o → Yields r (f o) Q) : Yields r (Cached.attempt x >>= f) Q := by
  have hattempt : Yields r (Cached.attempt x) fun made => ∃ o, made = .ok o ∧ P o :=
    hx.via fun o ho => ⟨o, rfl, ho⟩
  refine hattempt.bind ?_ ?_
  · rintro o ⟨_, heq, ho⟩
    obtain rfl := Except.ok.inj heq
    exact hf o ho
  · rintro e ⟨_, heq, -⟩
    cases heq

theorem yields_gather {parts : List (Step × Cached Value)} {outcomes : List (Step × Outcome)}
    (h : List.Forall₂ (fun p o => p.1 = o.1 ∧ Yields r p.2 (Agrees r o.2)) parts outcomes) :
    Yields r (gather parts) (Agrees r (Outcome.gather outcomes)) := by
  induction h with
  | nil => exact agrees_of (.ok [])
  | @cons p o _ rest hp _ ih =>
    obtain ⟨step, x⟩ := p
    obtain ⟨given, o⟩ := o
    obtain ⟨rfl, hx⟩ : step = given ∧ Yields r x (Agrees r o) := hp
    refine hx.attempt_bind fun made hmade => ?_
    cases made with
    | ok v =>
      refine ih.bind (fun vs hvs => yields_pure fun hr => ?_) fun e he hr => ?_
      · simp only [Outcome.gather, ← hmade hr, ← hvs hr]
      · simp only [Outcome.gather, ← hmade hr, ← he hr]
    | error failure =>
      cases failure with
      | broken fault => exact yields_throw fun hr => by simp only [Outcome.gather, ← hmade hr]
      | rejected issues =>
        refine ih.attempt_bind fun more hmore => ?_
        obtain failure | vs := more
        · cases failure <;>
            exact yields_throw fun hr => by simp only [Outcome.gather, ← hmade hr, ← hmore hr]
        · exact yields_throw fun hr => by simp only [Outcome.gather, ← hmade hr, ← hmore hr]

theorem yields_first {parts : List (Cached Value)} {outcomes : List Outcome}
    (h : List.Forall₂ (fun p o => Yields r p (Agrees r o)) parts outcomes) {last : Outcome} :
    Yields r (first last parts) (Agrees r (Outcome.first last outcomes)) := by
  induction h with
  | nil => exact agrees_of last
  | @cons x o _ rest hx _ ih =>
    refine hx.attempt_bind fun made hmade => ?_
    cases made with
    | ok v => exact yields_of fun hr => by rw [← hmade hr, Outcome.first]; nofun
    | error failure =>
      cases failure with
      | broken fault => exact yields_of fun hr => by rw [← hmade hr, Outcome.first]; nofun
      | rejected issues =>
        intro c hc
        obtain ⟨o, after, hgo, ho, hafter⟩ := ih c hc
        refine ⟨o, after, hgo, fun hr => ?_, hafter⟩
        rw [← hmade hr, Outcome.first, ho hr]

/-- The entries of a collection are taken one by one. -/
theorem index_cons (property : Option String) (done : List (Text × Value)) (given : Option Scalar)
    (part : Outcome) (rest : List (Option Scalar × Outcome)) :
    Collection.index property done ((given, part) :: rest) = (do
      let made ← part
      let done ← Collection.index property done [(given, .ok made)]
      Collection.index property done rest) := by
  cases part with
  | error e => rfl
  | ok made =>
    simp only [Collection.index, bind, Except.bind]
    generalize Collection.entryKey _ given = key
    cases key with
    | error e => rfl
    | ok key => by_cases h : key ∈ done.map Prod.fst <;> simp [h, Outcome.reject]

theorem yields_index {parts : List (Option Scalar × Cached Value)}
    {outcomes : List (Option Scalar × Outcome)}
    (h : List.Forall₂ (fun p o => p.1 = o.1 ∧ Yields r p.2 (Agrees r o.2)) parts outcomes)
    (property : Option String) (done : List (Text × Value)) :
    Yields r (index property done parts) (Agrees r (Collection.index property done outcomes)) := by
  induction h generalizing done with
  | nil => exact agrees_of (.ok done)
  | @cons p o _ rest hp _ ih =>
    obtain ⟨given, x⟩ := p
    obtain ⟨_, o⟩ := o
    obtain ⟨rfl, hx⟩ := hp
    rw [index_cons]
    exact hx.bind_agrees fun made => (agrees_of _).bind_agrees fun done => ih done

end Cached

end CheckedModels
