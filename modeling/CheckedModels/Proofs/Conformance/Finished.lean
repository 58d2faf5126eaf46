import CheckedModels.Proofs.Conformance.Compiled
import CheckedModels.Proofs.Registry.Legible
import CheckedModels.Proofs.Sdl.Soundness

/-! Every schema is compiled into definitions that can be used, however its declarations repeat names. -/
namespace CheckedModels.Declarations

variable {ds : Declarations} {config : Config}

/-- A model under the name of a declaration that is reached. -/
theorem exists_model_of_hasModel {r : Registry} {v : Survey} {s : Scope} {m : String}
    (hfind : ∀ name, r.find? name = (v.reached.lookup name).map (v.content s config))
    (h : v.hasModel m = true) : ∃ made, r.find? m = some (.model made) := by
  unfold Survey.hasModel at h
  rw [hfind]
  cases hd : v.reached.lookup m with
  | none => simp [hd] at h
  | some d => cases d <;> simp_all [Declaration.isModel, Declaration.kind, Survey.content]

/-- However names repeat, what is compiled is finished and refers to what is compiled with it. -/
theorem finished_compile (h : ds.Usable) (config : Config) :
    ∃ c, ds.compile config = .ok c ∧ c.registry.Finished := by
  let s : Scope := { declarations := ds.resolveKinds }
  let v := Survey.ofRoots s
  obtain ⟨c, hc, hfind⟩ := ds.find?_compile config
  have hmodel : ∀ m, v.hasModel m = true → ∃ made, c.registry.find? m = some (.model made) :=
    fun m hm => exists_model_of_hasModel hfind hm
  have hplain {key : String} {definition : Definition} (hd : c.registry.find? key = some definition) :
      c.registry.Plain key definition := by
    obtain ⟨d, hlookup, rfl⟩ := Option.map_eq_some_iff.mp ((hfind key).symm.trans hd)
    have hmem := Entries.mem_of_lookup hlookup
    obtain rfl : d.name = key := ds.resolveKinds.sound_ofRoots.name_eq hmem
    have hrecord (hm : d.isModel = true) : ∀ p ∈ s.compose (config.choice d.name) d,
        c.registry.Refers p.2 := by
      intro p hp
      obtain ⟨f, -, hdescribes⟩ := Scope.exists_field_of_mem_compose hp
      apply Registry.refers_of_core
      rcases hdescribes.core with ⟨b, hb, -⟩ | hname
      · exact .inl ⟨b, hb⟩
      · refine .inr ⟨_, ?_, hname⟩
        have hreached := mem_names_of_mem_compose config hmem hm hp hname
        obtain ⟨e, he⟩ := Entries.exists_lookup hreached
        exact Registry.mem_keys_iff.mpr ⟨_, by rw [hfind, he]; rfl⟩
    cases d with
    | object | input | interface => exact .model rfl rfl (hrecord rfl)
    | union u =>
      refine .union rfl fun name hname => hmodel name ?_
      simp only [List.mem_filter, Bool.and_eq_true] at hname
      exact hname.2.2
    | enum e => exact .enumeration rfl
    | scalar e => exact .basic .frozen
  refine ⟨c, hc, hplain, fun {key m} hm => ?_⟩
  obtain ⟨d, hlookup, hd⟩ := Option.map_eq_some_iff.mp ((hfind key).symm.trans hm)
  have hmem := Entries.mem_of_lookup hlookup
  have hfound := ds.resolveKinds.sound_ofRoots.found _ hmem
  obtain ⟨d', hd', rfl⟩ := mem_all_resolveKinds_iff.mp (findKind?_mem hfound).1
  have hname := h d' hd'
  cases d' with
  | object | input | interface =>
    obtain rfl := Definition.model.inj hd
    exact hname rfl
  | union | enum | scalar => cases hd

/-- The names in a text are no hindrance to a class. -/
theorem usable_of_ofTextWithin {limit : Nat} {text : String} (h : ofTextWithin limit text = .ok ds) :
    ds.Usable := by
  obtain ⟨written, hwritten, rfl⟩ := exists_writable_of_ofTextWithin h
  intro e he _
  obtain ⟨d, hd, rfl⟩ := mem_all_resolveKinds_iff.mp he
  rw [name_resolve]
  exact (hwritten d hd).isName.isWord.not_contains_null

end CheckedModels.Declarations
