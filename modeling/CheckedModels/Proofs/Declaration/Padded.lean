import CheckedModels.Proofs.Compile.Identifier
import CheckedModels.Proofs.Conformance.Fields
import CheckedModels.Proofs.Declaration.Matching

/-! Schemas with further references put in that lead nowhere: fields of unknown types, union members that
are no objects, and interfaces that nothing declares. -/
namespace CheckedModels

/-- The second list is the first one with further elements put in anywhere, of which `P` holds. -/
inductive Padded {α : Type} (P : α → Prop) : List α → List α → Prop where
  | nil : Padded P [] []
  | keep (x : α) {xs ys : List α} (h : Padded P xs ys) : Padded P (x :: xs) (x :: ys)
  | insert {y : α} (hy : P y) {xs ys : List α} (h : Padded P xs ys) : Padded P xs (y :: ys)

namespace Padded

variable {α β : Type} {P Q : α → Prop} {xs ys zs ws : List α}

theorem append (h : Padded P xs ys) (h' : Padded P zs ws) : Padded P (xs ++ zs) (ys ++ ws) := by
  induction h with
  | nil => exact h'
  | keep x _ ih => exact ih.keep x
  | insert hy _ ih => exact ih.insert hy

theorem imp (hPQ : ∀ x, P x → Q x) (h : Padded P xs ys) : Padded Q xs ys := by
  induction h with
  | nil => exact .nil
  | keep x _ ih => exact ih.keep x
  | insert hy _ ih => exact ih.insert (hPQ _ hy)

theorem map {Q : β → Prop} (f : α → β) (hPQ : ∀ x, P x → Q (f x)) (h : Padded P xs ys) :
    Padded Q (xs.map f) (ys.map f) := by
  induction h with
  | nil => exact .nil
  | keep x _ ih => exact ih.keep (f x)
  | insert hy _ ih => exact ih.insert (hPQ _ hy)

theorem mem_or (h : Padded P xs ys) {y : α} (hy : y ∈ ys) : y ∈ xs ∨ P y := by
  induction h with
  | nil => simp at hy
  | keep x _ ih =>
    rcases List.mem_cons.mp hy with rfl | hy
    · exact .inl List.mem_cons_self
    · exact (ih hy).imp_left (List.mem_cons_of_mem _)
  | insert hz _ ih =>
    rcases List.mem_cons.mp hy with rfl | hy
    · exact .inr hz
    · exact ih hy

theorem with_mem (h : Padded P xs ys) : Padded (fun y => P y ∧ y ∈ ys) xs ys := by
  induction h with
  | nil => exact .nil
  | keep x _ ih => exact (ih.imp fun _ hy => ⟨hy.1, List.mem_cons_of_mem _ hy.2⟩).keep x
  | insert hy _ ih =>
    exact (ih.imp fun _ hz => ⟨hz.1, List.mem_cons_of_mem _ hz.2⟩).insert ⟨hy, List.mem_cons_self⟩

theorem filter (p : α → Bool) (h : Padded P xs ys) : Padded P (xs.filter p) (ys.filter p) := by
  induction h with
  | nil => exact .nil
  | keep x _ ih =>
    rw [List.filter_cons, List.filter_cons]
    split
    · exact ih.keep x
    · exact ih
  | insert hy _ ih =>
    rw [List.filter_cons]
    split
    · exact ih.insert hy
    · exact ih

theorem filter_eq {p : α → Bool} (hp : ∀ y, P y → p y = false) (h : Padded P xs ys) :
    ys.filter p = xs.filter p := by
  induction h with
  | nil => rfl
  | keep x _ ih => rw [List.filter_cons, List.filter_cons, ih]
  | insert hy _ ih => rw [List.filter_cons_of_neg (by simp [hp _ hy]), ih]

theorem foldl_eq {f : β → α → β} (hf : ∀ b y, P y → f b y = b) (h : Padded P xs ys) (b : β) :
    ys.foldl f b = xs.foldl f b := by
  induction h generalizing b with
  | nil => rfl
  | keep x _ ih => rw [List.foldl_cons, List.foldl_cons, ih]
  | insert hy _ ih => rw [List.foldl_cons, hf b _ hy, ih]

theorem flatMap_eq {f : α → List β} (hf : ∀ y, P y → f y = []) (h : Padded P xs ys) :
    ys.flatMap f = xs.flatMap f := by
  induction h with
  | nil => rfl
  | keep x _ ih => rw [List.flatMap_cons, List.flatMap_cons, ih]
  | insert hy _ ih => rw [List.flatMap_cons, hf _ hy, List.nil_append, ih]

/-- Lists of lists are padded where those from the first one are and what is put in brings nothing. -/
theorem flatMap {Q : β → Prop} {f g : α → List β} (hfg : ∀ x ∈ xs, Padded Q (f x) (g x))
    (hg : ∀ y, P y → g y = []) (h : Padded P xs ys) : Padded Q (xs.flatMap f) (ys.flatMap g) := by
  induction h with
  | nil => exact .nil
  | keep x _ ih =>
    rw [List.flatMap_cons, List.flatMap_cons]
    exact (hfg x List.mem_cons_self).append (ih fun y hy => hfg y (List.mem_cons_of_mem _ hy))
  | insert hy _ ih =>
    rw [List.flatMap_cons, hg _ hy, List.nil_append]
    exact ih hfg

theorem of_filter {p : α → Bool} (h : ∀ y ∈ ys, p y = false → P y) : Padded P (ys.filter p) ys := by
  induction ys with
  | nil => exact .nil
  | cons y rest ih =>
    have hrest := ih fun z hz => h z (List.mem_cons_of_mem _ hz)
    cases hp : p y with
    | true =>
      rw [List.filter_cons_of_pos hp]
      exact hrest.keep y
    | false =>
      rw [List.filter_cons_of_neg (by simp [hp])]
      exact hrest.insert (h y List.mem_cons_self hp)

/-- Maps of padded pairs are padded, where the pairs that are put in have keys of their own. -/
theorem ofPairs {P : String × α → Prop} {m n : Entries α} (h : Padded P m n)
    (hnew : ∀ e, P e → e.1 ∉ m.keys) : Padded P (Entries.ofPairs m) (Entries.ofPairs n) := by
  have hfilter : n.filter (fun e => m.keys.contains e.1) = m := by
    rw [h.filter_eq fun e he => by simpa using hnew e he]
    exact List.filter_eq_self.mpr fun e he => by simpa using Entries.mem_keys_of_mem he
  rw [← congrArg Entries.ofPairs hfilter, ← Entries.filter_ofPairs]
  refine of_filter fun e he hkey => ?_
  have hmem := (Entries.mem_putAll he).resolve_right List.not_mem_nil
  refine (h.mem_or hmem).resolve_left fun hm => ?_
  have hin : e.1 ∈ m.keys := Entries.mem_keys_of_mem hm
  simp [hin] at hkey

end Padded

namespace Declarations

/-- The type of the field is neither built in nor declared, and its kind is not set to be an identifier. -/
def Dangling (ds : Declarations) (f : Field) : Prop :=
  ds.knows f.typeName = false ∧ f.isIdentifierCandidate = false

/-- The name is free for a field of the interface that is dropped: an interface that is this one or
implements it has no field of the name, and inherits none. -/
def Vacant (ds : Declarations) (i : Declaration) (name : String) : Prop :=
  ∀ e ∈ ds.all, e.kind = .interface → (e = i ∨ ds.Implements e i) →
    name ∉ e.fields.map Field.name ∧ ∀ j, ds.Implements e j → name ∉ j.fields.map Field.name

/-- The second declaration is the first one with references put in anywhere that lead nowhere. The name of
a field that is put into an interface has to be vacant. -/
structure PaddedBy (ds : Declarations) (d e : Declaration) : Prop where
  fields : Padded (fun f => ds.Dangling f ∧ (d.kind = .interface → ds.Vacant d f.name)) d.fields e.fields
  interfaces : Padded (fun name => ds.findKind? .interface name = none) d.interfaces e.interfaces
  members : Padded (fun name => ds.findKind? .object name = none) d.members e.members
  fixed : d.kind = .enum ∨ d.kind = .scalar → d = e

/-- What is put into the interfaces of a declaration has not the name of a field that it declares itself. -/
def Undisturbed (a b : Declarations) (d : Declaration) : Prop :=
  ∀ i, a.Implements d i → ∀ j ∈ b.all, j.name = i.name →
    ∀ f ∈ j.fields, f.name ∈ d.fields.map Field.name → f.name ∈ i.fields.map Field.name

variable {ds : Declarations}

/-- A field of an unknown type is dropped. -/
theorem keeps_of_dangling {f : Field} (h : ds.Dangling f) :
    Scope.keeps { declarations := ds.resolveKinds } (ds.resolveField f) = false := by
  obtain ⟨hunknown, hcandidate⟩ := h
  by_cases hkind : f.kind = .unknown
  · unfold Scope.keeps
    rw [resolve?_of_unknown hkind hunknown, Bool.or_eq_false_iff]
    refine ⟨Bool.eq_false_iff.mpr fun hc => ?_, rfl⟩
    simp [knows, (builtinKind?_of_candidate hkind hc).1] at hunknown
  · have hsame : ds.resolveField f = f := by rw [resolveField, if_neg hkind]
    obtain ⟨hbuiltin, hfind⟩ : builtinKind? f.typeName = none ∧ ds.find? f.typeName = none := by
      simpa [knows] using hunknown
    have hnone : builtin? f.typeName = none := by
      have hsome := isSome_builtin? f.typeName
      rw [hbuiltin] at hsome
      exact Option.not_isSome_iff_eq_none.mp (by simp [hsome])
    have hnamed : ∀ kind, Scope.named? { declarations := ds.resolveKinds } f.typeName kind = none := by
      intro kind
      have hkindnone : ds.findKind? kind f.typeName = none := by
        refine List.find?_eq_none.mpr fun d hd hmatch => ?_
        have hd' := List.find?_eq_none.mp hfind d hd
        exact hd' (Bool.and_eq_true_iff.mp hmatch).1
      simp [Scope.named?, findKind?_resolveKinds, hkindnone]
    have hbase : f.base? (Scope.named? { declarations := ds.resolveKinds }) = none := by
      unfold Field.base? Field.request?
      split
      · exact hnone
      · exact hnone
      · cases f.kind.declared? with
        | none => rfl
        | some kind => exact hnamed kind
    rw [hsame, Scope.keeps, hcandidate, Scope.resolve?, Field.resolve?, hbase]
    rfl

end Declarations

end CheckedModels
