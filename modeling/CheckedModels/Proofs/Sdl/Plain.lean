import CheckedModels.Proofs.Declaration.Category
import CheckedModels.Proofs.Registry.PrintedName
import CheckedModels.Proofs.Sdl.Grammar
import CheckedModels.Proofs.Sdl.Spelling

/-! Every declaration that a schema text can hold is written with names and punctuators only, and with
a blank after each of them. -/
namespace CheckedModels

namespace Sdl

/-- A token that is spelled in one way only. -/
def Lexeme.IsPlain : Lexeme → Prop
  | .punctuator _ => True
  | .name n => IsName n
  | _ => False

instance decidableIsPlain (l : Lexeme) : Decidable l.IsPlain :=
  match l with
  | .punctuator _ => .isTrue trivial
  | .name n => decidableIsName n
  | .int _ | .float _ | .string _ | .blockString _ => .isFalse id

def Lexeme.plainText : Lexeme → String
  | .punctuator p => p.text
  | .name n => n
  | .int digits | .float digits => digits
  | .string value | .blockString value => value

def spaced (ls : List Lexeme) : String := String.ofList (ls.flatMap fun l => l.plainText.toList ++ [' '])

theorem IsName.spelled {n : String} (h : IsName n) : (Lexeme.name n).Spelled n.toList := by
  obtain ⟨c, rest, hn, hstart, hrest⟩ := h
  have hname : n = String.ofList (c :: rest) := by rw [← hn, String.ofList_toList]
  rw [hn, hname]
  exact .name hstart hrest

theorem Lexeme.IsPlain.spelled {l : Lexeme} (h : l.IsPlain) : l.Spelled l.plainText.toList := by
  cases l with
  | punctuator p => exact .punctuator p
  | name n => exact IsName.spelled h
  | int | float | string | blockString => exact absurd h id

/-- A blank ends every token. -/
theorem Lexeme.endsBefore_blank (l : Lexeme) (cs : List Char) : l.EndsBefore (' ' :: cs) := by
  rintro c hc
  obtain rfl : ' ' = c := by simpa using hc
  cases l <;> simp [isNamePart, isNumberPart, isNameStart]

theorem spells_spaced {ls : List Lexeme} (h : ∀ l ∈ ls, l.IsPlain) : Spells (spaced ls).toList ls := by
  rw [spaced, String.toList_ofList]
  induction ls with
  | nil => exact .done
  | cons l ls ih =>
    obtain ⟨hl, hls⟩ := List.forall_mem_cons.mp h
    rw [List.flatMap_cons, List.append_assoc]
    exact .token hl.spelled (l.endsBefore_blank _) (.blank rfl (ih hls))

end Sdl

section Writable

open Sdl

def TypeRef.Writable (t : TypeRef) : Prop := t.Proper ∧ IsName t.innermost

/-- The kind of a field is not written. -/
structure Field.Writable (f : Field) : Prop where
  name : IsName f.name
  type : f.type.Writable
  kind : f.kind = .unknown

/-- A declaration that a schema text can hold. -/
def Declaration.Writable : Declaration → Prop
  | .object d | .interface d =>
    IsName d.name ∧ (∀ f ∈ d.fields, f.Writable) ∧ ∀ i ∈ d.interfaces, IsName i
  | .input d => IsName d.name ∧ ∀ f ∈ d.fields, f.Writable
  | .union d => IsName d.name ∧ ∀ m ∈ d.members, IsName m
  | .enum d => IsName d.name ∧ ∀ v ∈ d.values, IsName v ∧ v ∉ ["true", "false", "null"]
  | .scalar d => IsName d.name

end Writable

namespace Sdl.Grammar

def IsPlain (ls : List Lexeme) : Prop := ∀ l ∈ ls, l.IsPlain

variable {ls ms : List Lexeme}

@[simp] theorem isPlain_nil : IsPlain [] := fun _ h => absurd h List.not_mem_nil

@[simp] theorem isPlain_cons {l : Lexeme} : IsPlain (l :: ls) ↔ l.IsPlain ∧ IsPlain ls :=
  List.forall_mem_cons

@[simp] theorem isPlain_append : IsPlain (ls ++ ms) ↔ IsPlain ls ∧ IsPlain ms :=
  List.forall_mem_append

@[simp] theorem isPlain_punctuator (p : Punctuator) : (Lexeme.punctuator p).IsPlain := trivial

@[simp] theorem isPlain_name {n : String} : (Lexeme.name n).IsPlain ↔ IsName n := Iff.rfl

theorem isPlain_enclosed {start close : Punctuator} {items : List (List Lexeme)}
    (h : ∀ i ∈ items, IsPlain i) : IsPlain (enclosed start close items) := by
  unfold enclosed
  split
  · exact isPlain_nil
  · simpa [IsPlain, or_imp, forall_and] using fun l i hi hl => h i hi l hl

theorem isPlain_separatedBy {mark : Punctuator} {names : List String} (h : ∀ n ∈ names, IsName n) :
    IsPlain (separatedBy mark names) := by
  induction names with
  | nil => exact isPlain_nil
  | cons n names ih =>
    obtain ⟨hn, hnames⟩ := List.forall_mem_cons.mp h
    cases names with
    | nil => simpa [separatedBy] using hn
    | cons m names => simpa [separatedBy] using ⟨hn, ih hnames⟩

theorem isPlain_interfaceLexemes {names : List String} (h : ∀ n ∈ names, IsName n) :
    IsPlain (interfaceLexemes false names) := by
  unfold interfaceLexemes
  split
  · exact isPlain_nil
  · exact isPlain_cons.mpr ⟨show IsName "implements" by decide, isPlain_separatedBy h⟩

theorem isPlain_memberLexemes {names : List String} (h : ∀ n ∈ names, IsName n) :
    IsPlain (memberLexemes false names) := by
  unfold memberLexemes
  split
  · exact isPlain_nil
  · exact isPlain_cons.mpr ⟨trivial, isPlain_separatedBy h⟩

theorem isPlain_type {t : TypeRef} (h : IsName t.innermost) : IsPlain t.lexemes := by
  induction t with
  | named n => exact isPlain_cons.mpr ⟨h, isPlain_nil⟩
  | list item ih => simpa [TypeRef.lexemes] using ih h
  | nonNull inner ih => simpa [TypeRef.lexemes] using ih h

/-- A list of things that are all made from something with a property. -/
theorem exists_map_eq {α β : Type} {g : α → β} {P : α → Prop} {xs : List β}
    (h : ∀ x ∈ xs, ∃ y, g y = x ∧ P y) : ∃ ys : List α, ys.map g = xs ∧ ∀ y ∈ ys, P y := by
  induction xs with
  | nil => exact ⟨[], rfl, by simp⟩
  | cons x xs ih =>
    obtain ⟨y, hy, hP⟩ := h x List.mem_cons_self
    obtain ⟨ys, hys, hPs⟩ := ih fun z hz => h z (List.mem_cons_of_mem x hz)
    exact ⟨y :: ys, by rw [List.map_cons, hy, hys], List.forall_mem_cons.mpr ⟨hP, hPs⟩⟩

variable {depth : Nat}

theorem exists_field {f : Field} (h : f.Writable) (hdepth : f.listDepth ≤ depth) :
    ∃ d : FieldDefinition depth, d.field = f ∧ IsPlain d.lexemes := by
  refine ⟨{ name := f.name, type := f.type, proper := h.type.1, shallow := hdepth }, ?_, ?_⟩
  · rw [FieldDefinition.field, ← h.kind]
  · simpa [FieldDefinition.lexemes, describe, enclosed, directiveLexemes]
      using ⟨h.name, isPlain_type h.type.2⟩

theorem exists_inputValue {f : Field} (h : f.Writable) (hdepth : f.listDepth ≤ depth) :
    ∃ d : InputValueDefinition depth, d.field = f ∧ IsPlain d.lexemes := by
  refine ⟨{ name := f.name, type := f.type, proper := h.type.1, shallow := hdepth }, ?_, ?_⟩
  · rw [InputValueDefinition.field, ← h.kind]
  · simpa [InputValueDefinition.lexemes, describe, defaultLexemes, directiveLexemes]
      using ⟨h.name, isPlain_type h.type.2⟩

theorem exists_enumValue {v : String} (h : IsName v ∧ v ∉ ["true", "false", "null"]) :
    ∃ d : EnumValueDefinition depth, d.name = v ∧ IsPlain d.lexemes :=
  ⟨{ name := v, free := h.2 }, rfl,
    by simpa [EnumValueDefinition.lexemes, describe, directiveLexemes] using h.1⟩

theorem exists_record {d : RecordDeclaration} (hname : IsName d.name)
    (hfields : ∀ f ∈ d.fields, f.Writable) (hinterfaces : ∀ i ∈ d.interfaces, IsName i)
    (hdepth : ∀ f ∈ d.fields, f.listDepth ≤ depth) :
    ∃ r : Record depth, r.declaration = d ∧ IsPlain r.lexemes := by
  obtain ⟨fs, hfs, hplain⟩ := exists_map_eq fun f hf => exists_field (hfields f hf) (hdepth f hf)
  refine ⟨{ name := d.name, interfaces := d.interfaces, fields := fs }, ?_, ?_⟩
  · rw [Record.declaration, hfs]
  · simp only [Record.lexemes, isPlain_cons, isPlain_append, directiveLexemes, List.flatMap_nil,
      isPlain_nil, true_and]
    exact ⟨hname, isPlain_interfaceLexemes hinterfaces,
      isPlain_enclosed (List.forall_mem_map.mpr hplain)⟩

theorem isName_keyword (b : Body depth) : IsName b.keyword := by
  cases b <;> rw [Body.keyword] <;> decide

theorem exists_item_of_body {d : Declaration} {b : Body depth} (hd : b.declared? = some d)
    (hb : b.Defines) (hplain : IsPlain b.lexemes) :
    ∃ item : Item depth, item.declared? = some d ∧ IsPlain item.lexemes :=
  ⟨.definition none b hb, hd, isPlain_cons.mpr ⟨isName_keyword b, hplain⟩⟩

/-- A declaration has a definition, if the types of its fields are not nested too deeply. -/
theorem exists_item {d : Declaration} (h : d.Writable) (hdepth : ∀ f ∈ d.fields, f.listDepth ≤ depth) :
    ∃ item : Item depth, item.declared? = some d ∧ IsPlain item.lexemes := by
  cases d with
  | object d =>
    obtain ⟨r, rfl, hplain⟩ := exists_record h.1 h.2.1 h.2.2 hdepth
    exact exists_item_of_body (b := .object r) rfl trivial hplain
  | interface d =>
    obtain ⟨r, rfl, hplain⟩ := exists_record h.1 h.2.1 h.2.2 hdepth
    exact exists_item_of_body (b := .interface r) rfl trivial hplain
  | input d =>
    obtain ⟨fs, hfs, hplain⟩ := exists_map_eq fun f hf => exists_inputValue (h.2 f hf) (hdepth f hf)
    refine exists_item_of_body (b := .input d.name [] fs) ?_ trivial ?_
    · rw [Body.declared?, hfs]
    · exact isPlain_cons.mpr ⟨h.1, isPlain_enclosed (List.forall_mem_map.mpr hplain)⟩
  | union d =>
    exact exists_item_of_body (b := .union d.name [] false d.members) rfl trivial
      (isPlain_cons.mpr ⟨h.1, isPlain_memberLexemes h.2⟩)
  | enum d =>
    have hvalue : ∀ v ∈ d.values, ∃ e : EnumValueDefinition depth, e.name = v ∧ IsPlain e.lexemes :=
      fun v hv => exists_enumValue (h.2 v hv)
    obtain ⟨vs, hvs, hplain⟩ := exists_map_eq hvalue
    refine exists_item_of_body (b := .enum d.name [] vs) ?_ trivial ?_
    · rw [Body.declared?, hvs]
    · exact isPlain_cons.mpr ⟨h.1, isPlain_enclosed (List.forall_mem_map.mpr hplain)⟩
  | scalar d =>
    exact exists_item_of_body (b := .scalar d.name []) rfl trivial (isPlain_cons.mpr ⟨h, isPlain_nil⟩)

end Sdl.Grammar

end CheckedModels
