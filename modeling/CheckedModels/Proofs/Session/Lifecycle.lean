import CheckedModels.Proofs.Session.Change
import CheckedModels.Proofs.Session.Validate

/-! The life of descriptors: what they are after any calls, and that the answers they give depend on
nothing else. -/
namespace CheckedModels

variable {r : Registry} {s : Session} {call : Call} {reply : Reply} {key : String}

namespace Registry

theorem conclude_convert (r : Registry) (d : Descriptor) (v : Value) :
    r.conclude d (r.input d v) (r.convert d (r.input d v)) = r.create d v := by
  unfold conclude create
  cases r.convert d (r.input d v) with
  | ok made => rfl
  | error e => cases e <;> rfl

theorem createWorded_told (r : Registry) (w : Wording) (d : Descriptor) (v : Value) :
    (r.createWorded w d v).1 = r.told (r.wording w d (r.input d v)) d (r.create d v) := by
  unfold createWorded told
  cases r.create d v with
  | ok made => rfl
  | error e => cases e <;> rfl

theorem verdict_convert (r : Registry) (d : Descriptor) (v : Value) :
    (r.convert d v).verdict = r.isValid d v := by
  unfold Outcome.verdict isValid
  cases r.convert d v with
  | ok made => rfl
  | error e => cases e <;> rfl

end Registry

namespace Session

structure Sound (s : Session) : Prop where
  numbered : s.registry.Numbered
  labelled : ∀ key d, s.registry.find? key = some d →
    d.Identified ∧ ∃ n, key = Registry.numberedKey d.label n
  coherent : s.caches.Coherent s.registry

theorem sound_empty (w : Wording) : Sound ⟨{}, {}, w⟩ where
  numbered := Registry.numbered_empty
  labelled := by simp [Registry.find?]
  coherent := Caches.coherent_empty _

/-- Only conversions touch the caches, and they leave the definitions alone. -/
theorem step_caches (s : Session) (call : Call) : (s.step call).2.caches = s.caches ∨
    (s.step call).2.registry = s.registry ∧
      ∃ d v, (s.step call).2.caches = ((s.registry.checkCached d v).go s.caches).2 := by
  cases call with
  | create d v => exact .inr ⟨rfl, d, s.registry.input d v, rfl⟩
  | isValid d v => exact .inr ⟨rfl, d, v, rfl⟩
  | build | define | defineUnion | sealUp =>
    left
    simp only [step, build, define, defineUnion, sealUp]
    repeat' split
    all_goals rfl

/-- Caches stay coherent, as what they were made from is sealed. -/
theorem Change.coherent {after : Registry} (h : Change r call reply after) {c : Caches}
    (hc : c.Coherent r) : c.Coherent after := by
  have hfind : ∀ key m, r.find? key = some (.model m) → m.fault? = .none →
      after.find? key = some (.model m) := by
    intro key m hm hf
    refine h.find?_of_sealed hm ?_
    unfold Model.fault? at hf
    split at hf
    · cases hf
    · next hs => simpa [Definition.isSealed] using hs
  refine ⟨fun key made hmade => ?_, fun d s hs => ?_⟩
  · obtain ⟨m, hm, hf, rfl⟩ := hc.classes key made hmade
    exact ⟨m, hfind key m hm hf, hf, rfl⟩
  · cases hc.validators d s hs with
    | record hm hf => exact .record (hfind _ _ hm hf) hf
    | layers d => exact .layers d

theorem Sound.step (hs : s.Sound) (call : Call) : (s.step call).2.Sound := by
  have hchange := step_change hs.numbered call
  refine ⟨hchange.numbered hs.numbered, hchange.labelled hs.labelled, ?_⟩
  obtain hcaches | ⟨hregistry, d, v, hcaches⟩ := step_caches s call
  · rw [hcaches]
    exact hchange.coherent hs.coherent
  · rw [hcaches, hregistry]
    obtain ⟨_, after, hgo, -, hafter⟩ := Registry.yields_check d v s.caches hs.coherent
    rwa [hgo]

theorem Sound.after (hs : s.Sound) (calls : List Call) : (s.after calls).Sound := by
  induction calls generalizing s with
  | nil => exact hs
  | cons call rest ih => exact ih (hs.step call)

theorem after_append (s : Session) (calls later : List Call) :
    s.after (calls ++ later) = (s.after calls).after later := List.foldl_append

/-- What the calls have set last is what there is. -/
theorem observed_after {α : Type} {view : Definition → Option α} {given : Call × Reply → Option α}
    (hstep : ∀ {r call reply after}, Change r call reply after →
      (after.find? key).bind view = (given (call, reply)).or ((r.find? key).bind view))
    (hs : s.Sound) (calls : List Call) : ((s.after calls).registry.find? key).bind view =
      ((s.history calls).filterMap given).getLast?.or ((s.registry.find? key).bind view) := by
  induction calls generalizing s with
  | nil => rfl
  | cons call rest ih =>
    have hrest := ih (hs.step call)
    rw [hstep (step_change hs.numbered call), ← Option.or_assoc] at hrest
    refine hrest.trans (congrArg (Option.or · _) ?_)
    rw [history, List.filterMap_cons]
    cases given (call, (s.step call).1) with
    | none => rw [Option.or_none]
    | some a => rw [List.getLast?_cons, Option.or_some]

theorem isSealed_after (hs : s.Sound) (calls : List Call) (key : String) :
    ((s.after calls).registry.find? key).any Definition.isSealed =
      ((s.history calls).any (Call.seals key) || (s.registry.find? key).any Definition.isSealed) := by
  induction calls generalizing s with
  | nil => rfl
  | cons call rest ih =>
    have hrest := ih (hs.step call)
    rw [(step_change hs.numbered call).isSealed] at hrest
    refine hrest.trans ?_
    rw [history, List.any_cons]
    ac_rfl

theorem find?_after_of_sealed (hs : s.Sound) {d : Definition} (hd : s.registry.find? key = some d)
    (hsealed : d.isSealed = true) (calls : List Call) :
    (s.after calls).registry.find? key = some d := by
  induction calls generalizing s with
  | nil => exact hd
  | cons call rest ih =>
    exact ih (hs.step call) ((step_change hs.numbered call).find?_of_sealed hd hsealed)

theorem step_refused {e : DefinitionError} (h : (s.step call).1 = .refused e) :
    (s.step call).2 = s := by
  cases call with
  | create | isValid => cases h
  | build | define | defineUnion | sealUp =>
    revert h
    simp only [step, build, define, defineUnion, sealUp]
    repeat' split
    all_goals simp

theorem check_eq (hs : s.Sound) (hnamed : s.registry.AllNamed) (d : Descriptor) (v : Value) :
    (s.check d v).1 = s.registry.convert d v := by
  obtain ⟨made, after, hgo, hmade, -⟩ := Registry.yields_check d v s.caches hs.coherent
  unfold check
  rw [hgo]
  exact hmade hnamed

theorem create_eq (hs : s.Sound) (hnamed : s.registry.AllNamed) (d : Descriptor) (v : Value) :
    (s.create d v).1 = (s.registry.createWorded s.wording d v).1 := by
  change s.registry.told (s.registry.wording s.wording d (s.registry.input d v)) d
    (s.registry.conclude d (s.registry.input d v) (s.check d (s.registry.input d v)).1) = _
  rw [check_eq hs hnamed, Registry.conclude_convert, Registry.createWorded_told]

theorem isValid_eq (hs : s.Sound) (hnamed : s.registry.AllNamed) (d : Descriptor) (v : Value) :
    (s.isValid d v).1 = s.registry.isValid d v := by
  change (s.check d v).1.verdict = _
  rw [check_eq hs hnamed, Registry.verdict_convert]

/-- Every definition can be built anew, and comes under its own key again. -/
theorem Sound.buildable (hs : s.Sound) {i : Nat} {e : String × Definition}
    (he : s.registry.entries[i]? = some e) :
    e.2.Identified ∧ e.1 = Registry.numberedKey e.2.label i := by
  obtain ⟨key, d⟩ := e
  have hkey : s.registry.keys[i]? = some key := by
    rw [Registry.keys, Entries.keys, List.getElem?_map, he]
    rfl
  obtain ⟨name, hname⟩ := hs.numbered i key hkey
  have hfind : s.registry.find? key = some d :=
    Entries.lookup_of_mem hs.numbered.nodup (List.mem_of_getElem? he)
  obtain ⟨hids, n, hlabel⟩ := hs.labelled key d hfind
  have hi : i = n := Registry.numberedKey_injective (hname.symm.trans hlabel)
  rw [← hi] at hlabel
  exact ⟨hids, hlabel⟩

/-- Building definitions one after the other gives them their places and keys. -/
theorem after_build {entries : Entries Definition} (w : Wording)
    (h : ∀ i e, entries[i]? = some e → e.2.Identified ∧ e.1 = Registry.numberedKey e.2.label i) :
    after ⟨{}, {}, w⟩ (entries.map fun e => .build e.2) = ⟨⟨entries⟩, {}, w⟩ := by
  induction entries using List.reverseRecOn with
  | nil => rfl
  | append_singleton front e ih =>
    have hfront : ∀ i x, front[i]? = some x →
        x.2.Identified ∧ x.1 = Registry.numberedKey x.2.label i := by
      intro i x hx
      exact h i x (by rw [List.getElem?_append_left (List.getElem?_eq_some_iff.mp hx).1, hx])
    have hn : Registry.Numbered ⟨front⟩ := by
      intro i key hi
      obtain ⟨x, hx, rfl⟩ := Option.map_eq_some_iff.mp (List.getElem?_map.symm.trans hi)
      exact ⟨_, (hfront i x hx).2⟩
    -- The last definition has the number of those before it.
    obtain ⟨hids, hkey⟩ := h front.length e (by simp)
    obtain ⟨key, d⟩ := e
    have hfresh : Registry.freshKey ⟨front⟩ d.label = key := hkey.symm
    have hregistry : (Registry.introduce ⟨front⟩ d.label d).1 = ⟨front ++ [(key, d)]⟩ := by
      rw [← hfresh]
      exact congrArg Registry.mk (hn.introduce_entries d.label d)
    rw [List.map_append, after_append, ih hfront]
    change (build ⟨⟨front⟩, {}, w⟩ d).2 = _
    unfold build
    rw [approve_eq_ok_iff.mpr hids]
    dsimp only
    rw [hregistry]

theorem Sound.fresh_eq (hs : s.Sound) : s.fresh = ⟨s.registry, {}, s.wording⟩ :=
  after_build s.wording fun _ _ => hs.buildable

/-- What a session has come to by calls with these replies. -/
structure Reflects (past : List (Call × Reply)) (s : Session) : Prop where
  /-- The properties of a model are those that it was given last. -/
  properties : ∀ key, (s.registry.find? key).bind Definition.properties? =
    (past.filterMap (Call.propertiesOf? key)).getLast?
  /-- The alternatives of a union are those that it was given last. -/
  alternatives : ∀ key, (s.registry.find? key).bind Definition.alternatives? =
    (past.filterMap (Call.alternativesOf? key)).getLast?
  /-- A definition is sealed exactly if a call has sealed it. -/
  isSealed : ∀ key, (s.registry.find? key).any Definition.isSealed = past.any (Call.seals key)
  /-- No model has more than one identifier. -/
  identifiers : ∀ key m, s.registry.find? key = some (.model m) →
    (Model.identifierKeys m.properties).length ≤ 1
  /-- A call that is refused changes nothing. -/
  refused : ∀ call e, (s.step call).1 = .refused e → (s.step call).2 = s
  /-- What is sealed stays as it is, whatever comes. -/
  stays : ∀ key d, s.registry.find? key = some d → d.isSealed = true →
    ∀ later, (s.after later).registry.find? key = some d
  /-- Unions of models, to whatever the properties of these refer, leave all names finite. -/
  named : (∀ key u, s.registry.find? key = some (.union u) →
    ∀ d ∈ u.alternatives, ∃ m, s.registry.record? d = some m) → s.registry.AllNamed
  /-- Built anew, with nothing made of them yet, the definitions are the same, and give the same answers
  unless a union has come to contain itself otherwise than through a model. -/
  fresh : s.fresh.registry = s.registry ∧ s.fresh.caches = {} ∧ (s.registry.AllNamed →
    ∀ d v, (s.create d v).1 = (s.fresh.create d v).1 ∧ (s.isValid d v).1 = (s.fresh.isValid d v).1)
  /-- Answers follow from the definitions, up to the order in which members are told. -/
  answers : s.registry.AllNamed → ∀ d v,
    (∃ w, (s.create d v).1 = s.registry.told w d (s.registry.create d v)) ∧
      (s.isValid d v).1 = s.registry.isValid d v

/-- The life of descriptors that refer to each other in any way, under any calls, refused and failing
ones among them: nothing of what was tried before shows but the definitions that it left. -/
theorem after_reflects (calls : List Call) : Reflects (history {} calls) (after {} calls) := by
  have hempty := sound_empty {}
  have hs := hempty.after calls
  have hfresh := hs.fresh_eq
  have hsame : Sound (after {} calls).fresh := by
    rw [hfresh]
    exact ⟨hs.numbered, hs.labelled, Caches.coherent_empty _⟩
  constructor
  case properties =>
    exact fun key => (observed_after (fun h => h.properties? key) hempty calls).trans (Option.or_none ..)
  case alternatives =>
    exact fun key => (observed_after (fun h => h.alternatives? key) hempty calls).trans (Option.or_none ..)
  case isSealed => exact fun key => (isSealed_after hempty calls key).trans (Bool.or_false _)
  case identifiers => exact fun key m hm => (hs.labelled key _ hm).1 m rfl
  case refused => exact fun call e => step_refused
  case stays => exact fun key d hd hsealed => find?_after_of_sealed hs hd hsealed
  case named => exact Registry.allNamed_of_records
  case fresh =>
    refine ⟨by rw [hfresh], by rw [hfresh], fun hnamed d v => ?_⟩
    have hnew : (after {} calls).fresh.registry.AllNamed := by
      rw [hfresh]
      exact hnamed
    constructor
    · rw [create_eq hs hnamed, create_eq hsame hnew, hfresh]
    · rw [isValid_eq hs hnamed, isValid_eq hsame hnew, hfresh]
  case answers =>
    intro hnamed d v
    exact ⟨⟨_, (create_eq hs hnamed d v).trans (Registry.createWorded_told ..)⟩, isValid_eq hs hnamed d v⟩

end Session

end CheckedModels
