import CheckedModels.Proofs.CommandLine.Ending
import CheckedModels.Proofs.Conversion.Record
import CheckedModels.Proofs.Sdl.Rendering

/-! What the verdict on a data file is: that of the type on the document, unless the document is null. -/
namespace CheckedModels

namespace Registry

variable {r : Registry} {key : String} {v : Value}

/-- An empty dictionary leaves out all properties. -/
theorem isValid_empty_iff (h : r.Finished) {m : Model} (hm : r.find? key = some (.model m)) :
    r.isValid (.named key) (.dict []) = .ok true ↔ ∀ p ∈ m.properties, p.2.isMaybeNull = true := by
  have hpart (p : String × Descriptor) : (∃ y, r.part [] p = .ok y) ↔ p.2.isMaybeNull = true := by
    rw [exists_part_iff]
    obtain ⟨name, d⟩ := p
    cases d <;> simp [Value.under?, Descriptor.isMaybeNull]
  rw [isValid_iff_accepts (nameEnds_of_record (record?_named hm))]
  simp only [Accepts, check, validate_dict_eq_ok_iff hm (h.fault?_eq_none hm)]
  constructor
  · rintro ⟨w, -, parts, hparts, -⟩ p hp
    obtain ⟨y, -, hy⟩ := Entries.exists_rel_of_mem hparts.flip hp
    exact (hpart p).mp ⟨y, hy⟩
  · intro hall
    obtain ⟨parts, hparts⟩ := Entries.exists_forall₂ fun p hp => (hpart p).mpr (hall p hp)
    exact ⟨_, by simp, parts, hparts, rfl⟩

/-- No model accepts null. -/
theorem isValid_null (h : r.Finished) {m : Model} (hm : r.find? key = some (.model m)) :
    r.isValid (.named key) .null = .ok false := by
  have hcheck : r.check (.named key) .null = Outcome.reject (.notModel m.name) :=
    validate_not_model hm (h.fault?_eq_none hm) (by simp) (by simp)
  exact isValid_rejected (nameEnds_of_record (record?_named hm)) hcheck

/-- Null stands for an empty dictionary where a model is made. -/
theorem exists_create_null_iff (h : r.Finished) {m : Model} (hm : r.find? key = some (.model m)) :
    (∃ w, r.create (.named key) .null = .ok w) ↔ ∀ p ∈ m.properties, p.2.isMaybeNull = true := by
  have hinput : r.input (.named key) .null = .dict [] := by simp only [input, record?_named hm]
  rw [← isValid_empty_iff h hm, isValid_eq_true_iff, ← exists_and_left]
  simp only [create_eq_ok_iff, hinput]

/-- A value is made exactly of what is accepted, and of null for a model of which everything may be left
out. -/
theorem exists_create_iff (h : r.Finished) : (∃ w, r.create (.named key) v = .ok w) ↔
    r.isValid (.named key) v = .ok true ∨
      v = .null ∧ ∃ m, r.find? key = some (.model m) ∧ ∀ p ∈ m.properties, p.2.isMaybeNull = true := by
  constructor
  · intro hcreate
    by_cases hnull : v = .null ∧ ∃ m, r.find? key = some (.model m)
    · obtain ⟨rfl, m, hm⟩ := hnull
      exact .inr ⟨rfl, m, hm, (exists_create_null_iff h hm).mp hcreate⟩
    · obtain ⟨w, hw⟩ := hcreate
      obtain ⟨hends, hcheck⟩ := create_eq_ok_iff.mp hw
      have hinput : r.input (.named key) v = v := by
        unfold input
        split
        · next m hm =>
          obtain ⟨_, hkey, hfind⟩ := record?_eq_some_iff.mp hm
          obtain rfl := Descriptor.named.inj hkey
          exact absurd ⟨rfl, m, hfind⟩ hnull
        · rfl
      exact .inl (isValid_eq_true_iff.mpr ⟨hends, w, hinput ▸ hcheck⟩)
  · rintro (hvalid | ⟨rfl, m, hm, hall⟩)
    · obtain ⟨hends, w, hw⟩ := isValid_eq_true_iff.mp hvalid
      exact ⟨w, create_of_check hends hw⟩
    · exact (exists_create_null_iff h hm).mpr hall

end Registry

theorem Value.ofJson_eq_null_iff {j : Json} : Value.ofJson j = .null ↔ j = .null := by
  cases j <;> simp [Value.ofJson]

/-- A file holds the text that is written to it, if the text has line feeds only. -/
theorem Files.readText_toUTF8 {files : Files} {path text : String}
    (hpath : path.contains '\x00' = false) (h : files path = .ok text.toUTF8)
    (hlines : Text.unixLines text.toList = text.toList) :
    files.readText path = .ok text := by
  have hutf : String.fromUTF8? text.toUTF8 = some text := dif_pos text.isValidUTF8
  rw [Files.readText, if_neg (by simp [hpath]), h]
  simp only [hutf, hlines, String.ofList_toList]

namespace CommandLine

open Request

/-- A value is called valid exactly if the schema is compiled, the type is among what comes of it, and
the type accepts the document of the data file; null is also called valid for a model of which everything
may be left out, although the model does not accept it. -/
theorem run_valid_iff {arguments : List String} {r : Request} (files : Files)
    (h : Request.ofArguments arguments = .ok (some r)) (hcommand : r.command = .validate) :
    (run arguments files).output = "Valid.\n" ∧ (run arguments files).ending = .exit 0 ↔
      ∃ registry key j, r.Compiles files registry ∧ r.Checks files registry key j ∧
        (registry.isValid (.named key) (.ofJson j) = .ok true ∨
          j = .null ∧ ∃ m, registry.find? key = some (.model m) ∧
            ∀ p ∈ m.properties, p.2.isMaybeNull = true) := by
  have hrun : run arguments files = r.run .unbounded files := by simp only [run, runOn, h]
  obtain ⟨report, hanswer, houtput, hending, -⟩ := r.exists_answer .unbounded files
  have hsettles := r.settles_answer files
  rw [hrun, houtput, hending]
  constructor
  · rintro ⟨-, hexit⟩
    rcases hanswer with hok | herror
    · obtain ⟨registry, hcompiles, hresponds⟩ := (hsettles.gives report).mp hok
      cases hresponds with
      | listed hcompile => simp [hcommand] at hcompile
      | @valid key j made _ hchecks hmade =>
        refine ⟨registry, key, j, hcompiles, hchecks, ?_⟩
        rw [← Value.ofJson_eq_null_iff]
        exact (Registry.exists_create_iff hcompiles.finished).mp ⟨made, hmade⟩
    · rcases hsettles.told report herror with ⟨message, rfl⟩ | ⟨c, rfl⟩ <;> cases hexit
  · rintro ⟨registry, key, j, hcompiles, hchecks, haccepts⟩
    rw [← Value.ofJson_eq_null_iff] at haccepts
    obtain ⟨made, hmade⟩ := (Registry.exists_create_iff hcompiles.finished).mpr haccepts
    have hok : r.answer .unbounded files = .ok (.success "Valid.\n") :=
      (hsettles.gives _).mpr ⟨registry, hcompiles, .valid hcommand hchecks hmade⟩
    rcases hanswer with h | h <;> rw [hok] at h
    · rw [← Except.ok.inj h]
      exact ⟨rfl, rfl⟩
    · cases h

def validateRequest : Request := ⟨false, .validate, none, false, [some "s", some "T", some "d"]⟩

theorem ofArguments_validate :
    Request.ofArguments ["validate", "s", "T", "d"] = .ok (some validateRequest) := by decide +kernel

/-- A schema with one property, which may be left out, and a document. -/
def schemaAnd (document : String) : Files := fun path =>
  .ok (if path = "s" then "type T { a : Int } " else document).toUTF8

def oneOptional : Registry := ⟨[("T", .model ⟨"T", [("a", .maybeNull .number)], true⟩)]⟩

theorem validateRequest_checks (document : String) {j : Json} (h : Json.read document = .ok j)
    (hlines : Text.unixLines document.toList = document.toList) :
    validateRequest.Compiles (schemaAnd document) oneOptional ∧
      validateRequest.Checks (schemaAnd document) oneOptional "T" j := by
  let ds : Declarations := { objects := [⟨"T", [⟨"a", .named "Int", .unknown⟩], []⟩] }
  have hschema : (schemaAnd document).readText (Files.path "s") = .ok "type T { a : Int } " := by
    rw [path_letter (.inl rfl)]
    exact Files.readText_toUTF8 (by simp) rfl (by decide)
  have hdocument : (schemaAnd document).readText (Files.path "d") = .ok document := by
    rw [path_letter (.inr rfl)]
    exact Files.readText_toUTF8 (by simp) rfl hlines
  have hwritten : ds.WrittenAs 0 "type T { a : Int } " := by
    let items : List (Sdl.Grammar.Item 0) := [.definition none (.object ⟨"T", false, [], [],
      [⟨none, "a", [], .named "Int", trivial, by decide, []⟩]⟩) trivial]
    have hplain : ∀ l ∈ items.flatMap Sdl.Grammar.Item.lexemes, l.IsPlain := by decide
    have htext : Sdl.spaced (items.flatMap Sdl.Grammar.Item.lexemes) = "type T { a : Int } " := by
      decide
    exact ⟨items, fun k => by cases k <;> rfl, htext ▸ Sdl.spells_spaced hplain⟩
  have hread : Declarations.ofText "type T { a : Int } " = .ok ds.resolveKinds :=
    Declarations.ofTextWithin_of_writtenAs (by decide) hwritten (by decide)
  have hcompile : ds.resolveKinds.compile {} = .ok ⟨oneOptional, [.compiled 1]⟩ := by decide +kernel
  refine ⟨.intro (c := ⟨oneOptional, [.compiled 1]⟩) (.none rfl) rfl hschema hread hcompile, ?_⟩
  exact ⟨rfl, by decide, "d", rfl, document, hdocument, h⟩

/-- An empty record leaves out the one property. -/
theorem run_valid_iff_empty : let report := run ["validate", "s", "T", "d"] (schemaAnd "{}")
    report.output = "Valid.\n" ∧ report.ending = .exit 0 := by
  obtain ⟨hcompiles, hchecks⟩ := validateRequest_checks "{}" (j := .obj []) rfl (by decide)
  refine (run_valid_iff _ ofArguments_validate rfl).mpr ⟨_, "T", .obj [], hcompiles, hchecks, .inl ?_⟩
  exact (Registry.isValid_empty_iff hcompiles.finished rfl).mpr (by decide)

/-- The verdict on null is not that of the type. -/
theorem run_valid_null : let report := run ["validate", "s", "T", "d"] (schemaAnd "null")
    validateRequest.Compiles (schemaAnd "null") oneOptional ∧
      validateRequest.Checks (schemaAnd "null") oneOptional "T" .null ∧
      oneOptional.isValid (.named "T") (.ofJson .null) = .ok false ∧
      report.output = "Valid.\n" ∧ report.ending = .exit 0 := by
  intro report
  obtain ⟨hcompiles, hchecks⟩ := validateRequest_checks "null" (j := .null) rfl (by decide)
  refine ⟨hcompiles, hchecks, Registry.isValid_null hcompiles.finished rfl, ?_⟩
  have hcreate : ∃ made, oneOptional.create (.named "T") .null = .ok made :=
    (Registry.exists_create_null_iff hcompiles.finished rfl).mpr (by decide)
  obtain ⟨made, hmade⟩ := hcreate
  have hok : validateRequest.answer .unbounded (schemaAnd "null") = .ok (.success "Valid.\n") :=
    ((settles_answer _ _).gives _).mpr ⟨_, hcompiles, .valid rfl hchecks hmade⟩
  have hreport : report = validateRequest.run .unbounded (schemaAnd "null") := by
    simp only [report, run, runOn, ofArguments_validate]
  rcases validateRequest.answer_cases rfl .unbounded (schemaAnd "null") with h | h <;> rw [hok, ← hreport] at h
  · rw [← Except.ok.inj h]
    exact ⟨rfl, rfl⟩
  · cases h

end CommandLine

end CheckedModels
