import CheckedModels.Declaration.OfText
import CheckedModels.Proofs.Declaration.Category
import CheckedModels.Proofs.Sdl.Completeness
import CheckedModels.Proofs.Sdl.Plain

/-! A text with one definition for each declaration is read back as these declarations, whatever else
stands between the definitions. -/
namespace CheckedModels

namespace Sdl

variable {depth limit : Nat}

namespace Parser

open Grammar

variable {first : Definition} {ts rest : Tokens}

theorem definitions_last {offset : Nat} (h : definition limit ts = .ok (first, .done offset)) :
    definitions limit ts = .ok [first] := by
  rw [definitions]
  simp only [StateT.run, h, bind, Except.bind]
  rfl

theorem definitions_more (h : definition limit ts = .ok (first, rest)) (hrest : ∀ o, rest ≠ .done o)
    (hsize : rest.size < ts.size) :
    definitions limit ts = (definitions limit rest).map (first :: ·) := by
  rw [definitions]
  simp only [StateT.run, h, bind, Except.bind, hsize, if_true]
  cases rest with
  | done offset => exact absurd rfl (hrest offset)
  | next | broken => rfl

theorem boundary_keyword (b : Body depth) : Boundary (some (.name b.keyword)) :=
  ⟨apart_name _, by cases b <;> simp [Body.keyword]⟩

/-- Where a definition begins, the one before has ended. -/
theorem exists_item_start (item : Item depth) :
    ∃ l more, item.lexemes = l :: more ∧ Boundary (some l) := by
  cases item with
  | definition d body =>
    cases d with
    | none => exact ⟨_, _, rfl, boundary_keyword body⟩
    | some d =>
      cases d <;> exact ⟨_, _, rfl, fun _ _ => by simp [Description.lexeme], by simp [Description.lexeme]⟩
  | extension => exact ⟨_, _, rfl, apart_name _, by simp⟩
  | directiveExtension => exact ⟨_, _, rfl, apart_name _, by simp⟩

/-- Every definition of a text is read, and each ends where the next one begins. -/
theorem definitions_of_begins (hlimit : depth ≤ limit) {items : List (Item depth)} (hne : items ≠ [])
    {finish : Nat} (h : Tokens.Begins (items.flatMap Item.lexemes) ts (.done finish)) :
    definitions limit ts = .ok (items.map Item.made) := by
  induction items generalizing ts with
  | nil => exact absurd rfl hne
  | cons item items ih =>
    rw [List.flatMap_cons] at h
    obtain ⟨rest, hfirst, hlater⟩ := Tokens.Begins.append_iff.mp h
    -- What comes next ends the definition: the text ends there, or another definition begins.
    have hrest : rest.Readable := hlater.readable fun _ => Tokens.noConfusion
    have hread := reads_definition hlimit item ts rest hfirst hrest
    cases items with
    | nil =>
      cases hlater
      exact definitions_last (hread ⟨apart_none, by simp [Tokens.head?]⟩)
    | cons next items =>
      obtain ⟨l, more, hnext, hboundary⟩ := exists_item_start next
      obtain ⟨l', more', hitem, -⟩ := exists_item_start item
      rw [List.flatMap_cons, hnext, List.cons_append] at hlater
      have hhead : rest.head? = some l := hlater.head?_eq
      have hsize : rest.size < ts.size := by
        rw [hfirst.size_eq, hitem, List.length_cons]
        omega
      rw [definitions_more (hread (hhead ▸ hboundary)) ?_ hsize, ih (by simp) ?_]
      · rfl
      · rwa [List.flatMap_cons, hnext]
      · rintro o rfl
        cases hlater

end Parser

/-- A text that consists of definitions is read as these. -/
theorem readWithin_of_spells (hlimit : depth ≤ limit) {items : List (Grammar.Item depth)}
    (hne : items ≠ []) {text : String}
    (h : Spells text.toList (items.flatMap Grammar.Item.lexemes)) :
    readWithin limit text = .ok (items.map Grammar.Item.made) := by
  obtain ⟨finish, hbegins⟩ := h.begins_scan 0
  have hreadable : (Tokens.ofText text).Readable :=
    hbegins.readable fun _ => Tokens.noConfusion
  rw [readWithin, Tokens.readable_eq hreadable]
  exact Parser.definitions_of_begins hlimit hne hbegins

end Sdl

namespace Declarations

theorem declared?_made {depth : Nat} (item : Sdl.Grammar.Item depth) :
    declared? item.made = item.declared? := by
  cases item with
  | definition d body => cases body <;> rfl
  | extension | directiveExtension => rfl

/-- The text consists of definitions, of which those that declare a type are these declarations: one
definition for each, in the order of its category. Definitions of different categories stand in any
order, and definitions of the schema and of directives and extensions stand anywhere among them.
Brackets of types and values are nested at most so deep. -/
def WrittenAs (ds : Declarations) (depth : Nat) (text : String) : Prop :=
  ∃ items : List (Sdl.Grammar.Item depth),
    (∀ k, (items.filterMap Sdl.Grammar.Item.declared?).filter (·.kind == k) = ds.category k) ∧
    Sdl.Spells text.toList (items.flatMap Sdl.Grammar.Item.lexemes)

variable {ds : Declarations} {depth : Nat} {text : String}

/-- All declarations that a schema text can hold have such a text. -/
theorem exists_writtenAs (h : ∀ d ∈ ds.all, d.Writable)
    (hdepth : ∀ d ∈ ds.all, ∀ f ∈ d.fields, f.listDepth ≤ depth) : ∃ text, ds.WrittenAs depth text := by
  have hitem : ∀ o ∈ ds.all.map some, ∃ item : Sdl.Grammar.Item depth,
      item.declared? = o ∧ Sdl.Grammar.IsPlain item.lexemes := by
    refine List.forall_mem_map.mpr fun d hd => ?_
    exact Sdl.Grammar.exists_item (h d hd) (hdepth d hd)
  obtain ⟨items, hitems, hplain⟩ := Sdl.Grammar.exists_map_eq hitem
  have hdeclared : items.filterMap Sdl.Grammar.Item.declared? = ds.all := by
    have hid : (items.map Sdl.Grammar.Item.declared?).filterMap id = ds.all := by
      rw [hitems]
      simp
    rwa [List.filterMap_map] at hid
  refine ⟨Sdl.spaced (items.flatMap Sdl.Grammar.Item.lexemes), items, fun k => ?_, ?_⟩
  · rw [hdeclared, filter_all]
  · exact Sdl.spells_spaced (List.forall_mem_flatMap.mpr hplain)

/-- A text of declarations is read as these declarations with their kinds looked up, by every parser that
follows brackets as deep as the text has them. -/
theorem ofTextWithin_of_writtenAs (hne : ds.all ≠ []) (h : ds.WrittenAs depth text) {limit : Nat}
    (hlimit : depth ≤ limit) : ofTextWithin limit text = .ok ds.resolveKinds := by
  obtain ⟨items, hcategory, hspells⟩ := h
  have hitems : items ≠ [] := by
    rintro rfl
    refine hne (List.eq_nil_iff_forall_not_mem.mpr fun d hd => ?_)
    rw [mem_all_iff, ← hcategory] at hd
    exact List.not_mem_nil hd
  have hdeclared : ofList ((items.map Sdl.Grammar.Item.made).filterMap declared?) = ds := by
    -- Only the order within each category is known, and only that one counts.
    refine eq_of_category_eq fun k => ?_
    rw [category_ofList, List.filterMap_map, ← hcategory]
    simp only [Function.comp_def, declared?_made]
  unfold ofTextWithin
  rw [Sdl.readWithin_of_spells hlimit hitems hspells]
  change Except.ok (ofList _).resolveKinds = _
  rw [hdeclared]

/-- Declarations of two categories in an order of their own, with an extension between them that adds
nothing to what it extends. -/
theorem ofTextWithin_extended : ofTextWithin Sdl.depthLimit
    "scalar S extend type A { c : S } type A { b : [ A ! ] ! } " = .ok (resolveKinds {
      objects := [⟨"A", [⟨"b", .nonNull (.list (.nonNull (.named "A"))), .unknown⟩], []⟩]
      scalars := [⟨"S"⟩] }) := by
  have hwritten : WrittenAs
      { objects := [⟨"A", [⟨"b", .nonNull (.list (.nonNull (.named "A"))), .unknown⟩], []⟩]
        scalars := [⟨"S"⟩] } 1
      "scalar S extend type A { c : S } type A { b : [ A ! ] ! } " := by
    let items : List (Sdl.Grammar.Item 1) :=
      [.definition none (.scalar "S" []) trivial,
        .extension (.object ⟨"A", false, [], [],
          [⟨none, "c", [], .named "S", trivial, by decide, []⟩]⟩) (.inr (.inr (List.cons_ne_nil _ _))),
        .definition none (.object ⟨"A", false, [], [], [⟨none, "b", [],
          .nonNull (.list (.nonNull (.named "A"))), ⟨rfl, rfl, trivial⟩, by decide, []⟩]⟩) trivial]
    have hplain : ∀ l ∈ items.flatMap Sdl.Grammar.Item.lexemes, l.IsPlain := by decide
    have htext : Sdl.spaced (items.flatMap Sdl.Grammar.Item.lexemes) =
        "scalar S extend type A { c : S } type A { b : [ A ! ] ! } " := by decide
    exact ⟨items, fun k => by cases k <;> rfl, htext ▸ Sdl.spells_spaced hplain⟩
  exact ofTextWithin_of_writtenAs (by decide) hwritten (by decide)

end Declarations

end CheckedModels
