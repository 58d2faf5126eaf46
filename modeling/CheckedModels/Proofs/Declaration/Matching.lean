import CheckedModels.Proofs.Compile.Lineage
import CheckedModels.Proofs.Declaration.Kinds
import Mathlib.Data.Option.Basic

/-! Two schemas whose declarations have the same names and kinds one by one: names are found alike, and
fields that name a type refer to the same. -/
namespace CheckedModels

/-- Two searches for the same thing in lists that are related one by one. -/
theorem rel_find? {α β : Type} {R : α → β → Prop} {p : α → Bool} {q : β → Bool} {xs : List α}
    {ys : List β} (h : List.Forall₂ R xs ys) (hpq : ∀ x y, R x y → p x = q y) :
    Option.Rel R (xs.find? p) (ys.find? q) := by
  induction h with
  | nil => exact .none
  | @cons x y _ _ hxy _ ih =>
    rw [List.find?_cons, List.find?_cons, ← hpq x y hxy]
    cases p x with
    | true => exact .some hxy
    | false => exact ih

namespace Declarations

/-- Two declarations of one name and one kind that are related. -/
structure Paired (R : Declaration → Declaration → Prop) (d e : Declaration) : Prop where
  name_eq : d.name = e.name
  kind_eq : d.kind = e.kind
  rel : R d e

/-- Category by category, the declarations are paired in their order. -/
def Matches (R : Declaration → Declaration → Prop) (a b : Declarations) : Prop :=
  ∀ k, List.Forall₂ (Paired R) (a.category k) (b.category k)

namespace Matches

variable {R : Declaration → Declaration → Prop} {a b : Declarations}

private theorem append {xs ys zs ws : List Declaration} (h : List.Forall₂ (Paired R) xs ys)
    (h' : List.Forall₂ (Paired R) zs ws) : List.Forall₂ (Paired R) (xs ++ zs) (ys ++ ws) :=
  List.rel_append h h'

theorem all (h : Matches R a b) : List.Forall₂ (Paired R) a.all b.all := by
  rw [all_eq, all_eq]
  exact append (append (append (append (append (h .object) (h .input)) (h .interface))
    (h .union)) (h .enum)) (h .scalar)

theorem roots (h : Matches R a b) : List.Forall₂ (Paired R) a.roots b.roots := by
  rw [roots_eq, roots_eq]
  exact append (append (append (h .input) (h .object)) (h .union)) (h .enum)

theorem exists_of_mem (h : Matches R a b) {d : Declaration} (hd : d ∈ a.all) :
    ∃ e ∈ b.all, Paired R d e := by
  obtain ⟨e, he, hpair⟩ := Entries.exists_rel_of_mem (List.Forall₂.flip h.all) hd
  exact ⟨e, he, hpair⟩

theorem names_eq (h : Matches R a b) : a.names = b.names := by
  unfold names
  have hall := h.all
  generalize a.all = ds, b.all = es at hall
  induction hall with
  | nil => rfl
  | cons hpair _ ih => rw [List.map_cons, List.map_cons, hpair.name_eq, ih]

theorem find? (h : Matches R a b) (name : String) :
    Option.Rel (Paired R) (a.find? name) (b.find? name) :=
  rel_find? h.all fun _ _ hpair => by rw [hpair.name_eq]

theorem findKind? (h : Matches R a b) (k : DeclarationKind) (name : String) :
    Option.Rel (Paired R) (a.findKind? k name) (b.findKind? k name) :=
  rel_find? h.all fun _ _ hpair => by rw [hpair.name_eq, hpair.kind_eq]

theorem findKind?_of_some (h : Matches R a b) {k : DeclarationKind} {name : String} {d : Declaration}
    (hd : a.findKind? k name = some d) : ∃ e, b.findKind? k name = some e ∧ Paired R d e := by
  have hrel := h.findKind? k name
  rw [hd] at hrel
  generalize b.findKind? k name = found at hrel ⊢
  cases hrel with
  | some hpair => exact ⟨_, rfl, hpair⟩

theorem isSome_findKind? (h : Matches R a b) (k : DeclarationKind) (name : String) :
    (a.findKind? k name).isSome = (b.findKind? k name).isSome := by
  have hrel := h.findKind? k name
  generalize a.findKind? k name = d, b.findKind? k name = e at hrel
  cases hrel <;> rfl

theorem kindOf_eq (h : Matches R a b) (name : String) : a.kindOf name = b.kindOf name := by
  unfold kindOf
  cases builtinKind? name with
  | some kind => rfl
  | none =>
    have hrel := h.find? name
    generalize a.find? name = d, b.find? name = e at hrel
    cases hrel with
    | none => rfl
    | some hpair => simp only [hpair.kind_eq]

theorem resolveField_eq (h : Matches R a b) (f : Field) : a.resolveField f = b.resolveField f := by
  unfold resolveField
  rw [h.kindOf_eq]

theorem resolveKinds {S : Declaration → Declaration → Prop} (h : Matches R a b)
    (hrel : ∀ d e, Paired R d e → S (a.resolve d) (b.resolve e)) :
    Matches S a.resolveKinds b.resolveKinds := by
  intro k
  rw [category_resolveKinds, category_resolveKinds]
  refine List.forall₂_map_left_iff.mpr (List.forall₂_map_right_iff.mpr ((h k).imp ?_))
  intro d e hpair
  exact ⟨by simpa using hpair.name_eq, by simpa using hpair.kind_eq, hrel d e hpair⟩

theorem interface? (h : Matches R a b) (name : String) :
    Option.Rel (fun i j => Paired R (.interface i) (.interface j))
      (Scope.interface? { declarations := a } name) (Scope.interface? { declarations := b } name) := by
  have hrel := h.findKind? .interface name
  unfold Scope.interface?
  dsimp only
  generalize hx : a.findKind? .interface name = x, hy : b.findKind? .interface name = y at hrel
  cases hrel with
  | none => exact .none
  | @some d e hpair =>
    have hd : d.kind = .interface := (findKind?_mem hx).2.2
    have he : e.kind = .interface := (findKind?_mem hy).2.2
    cases d with
    | interface i =>
      cases e with
      | interface j => exact .some hpair
      | object | input | union | enum | scalar => cases he
    | object | input | union | enum | scalar => cases hd

/-- What a field stands for does not depend on what else is declared under the names. -/
theorem resolve?_eq (h : Matches R a b) :
    Scope.resolve? { declarations := a } = Scope.resolve? { declarations := b } := by
  have hnamed : Scope.named? { declarations := a } = Scope.named? { declarations := b } := by
    funext name kind
    unfold Scope.named?
    rw [h.isSome_findKind?]
  funext f
  unfold Scope.resolve?
  rw [hnamed]

theorem keeps_eq (h : Matches R a b) :
    Scope.keeps { declarations := a } = Scope.keeps { declarations := b } := by
  funext f
  unfold Scope.keeps
  rw [h.resolve?_eq]

end Matches

end Declarations

end CheckedModels
