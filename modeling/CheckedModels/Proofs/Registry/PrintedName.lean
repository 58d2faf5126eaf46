import CheckedModels.Proofs.Registry.FreshKey
import CheckedModels.Registry.Summary
import CheckedModels.Sdl.Lexer

/-! The printed names of descriptors can be read in one way only. -/
namespace CheckedModels

/-- A name of one or more letters, digits and underscores. -/
def Sdl.IsWord (name : String) : Prop := name ≠ "" ∧ ∀ c ∈ name.toList, isNamePart c = true

/-- A name that a declaration may have: it does not begin with a digit. -/
def Sdl.IsName (name : String) : Prop :=
  ∃ c rest, name.toList = c :: rest ∧ isNameStart c = true ∧ ∀ d ∈ rest, isNamePart d = true

instance Sdl.decidableIsName (name : String) : Decidable (IsName name) :=
  match h : name.toList with
  | [] => .isFalse fun ⟨_, _, heq, _⟩ => List.cons_ne_nil _ _ (heq.symm.trans h)
  | c :: rest =>
    decidable_of_iff (isNameStart c = true ∧ rest.all isNamePart = true) (by
      rw [List.all_eq_true]
      constructor
      · intro hname
        exact ⟨c, rest, h, hname⟩
      · rintro ⟨d, more, heq, hname⟩
        obtain ⟨rfl, rfl⟩ := List.cons.inj (h.symm.trans heq)
        exact hname)

theorem Sdl.IsName.isWord {name : String} (h : IsName name) : IsWord name := by
  obtain ⟨c, rest, hname, hstart, hrest⟩ := h
  refine ⟨?_, ?_⟩
  · rintro rfl
    cases hname
  · rw [hname]
    refine List.forall_mem_cons.mpr ⟨?_, hrest⟩
    simp only [isNameStart, isNamePart, Char.isAlphanum, Bool.or_eq_true] at hstart ⊢
    tauto

/-- What a printed name tells of a descriptor. -/
inductive Shape where
  | word (name : String)
  | union (names : List String)
  | maybeNull (inner : Shape)
  | array (item : Shape)

namespace Shape

def print : Shape → String
  | word name => name
  | union names => "(" ++ " | ".intercalate names ++ ")"
  | maybeNull inner => "(" ++ inner.print ++ " | null)"
  | array item => item.print ++ "[]"

/-- Made of words, of which none in a union can be taken for null. -/
def Proper : Shape → Prop
  | word name => Sdl.IsWord name
  | union names => ∀ name ∈ names, Sdl.IsWord name ∧ name ≠ "null"
  | maybeNull inner => inner.Proper
  | array item => item.Proper

end Shape

section Alternatives

/-- The names of alternatives with bars between them. -/
def barred (names : List String) : List Char := " | ".toList.intercalate (names.map String.toList)

theorem barred_cons_cons (name next : String) (rest : List String) :
    barred (name :: next :: rest) = name.toList ++ ' ' :: '|' :: ' ' :: barred (next :: rest) := by
  simp [barred, List.intercalate_cons_cons]

theorem barred_singleton (name : String) : barred [name] = name.toList := by
  simp [barred]

theorem Sdl.IsWord.space_not_mem {name : String} (h : IsWord name) : ' ' ∉ name.toList := by
  intro hm
  have hpart := h.2 ' ' hm
  revert hpart
  decide

theorem Sdl.IsWord.toList_ne_nil {name : String} (h : IsWord name) : name.toList ≠ [] := by
  intro hnil
  exact h.1 (String.toList_inj.mp hnil)

theorem barred_ne_nil {name : String} (h : Sdl.IsWord name) (rest : List String) :
    barred (name :: rest) ≠ [] := by
  cases rest with
  | nil =>
    rw [barred_singleton]
    exact h.toList_ne_nil
  | cons next rest => simp [barred_cons_cons]

theorem barred_injective {names others : List String} (hn : ∀ name ∈ names, Sdl.IsWord name)
    (ho : ∀ name ∈ others, Sdl.IsWord name) (h : barred names = barred others) : names = others := by
  induction names generalizing others with
  | nil =>
    cases others with
    | nil => rfl
    | cons other more => exact absurd h.symm (barred_ne_nil (ho _ List.mem_cons_self) more)
  | cons name rest ih =>
    have hname := hn name List.mem_cons_self
    cases others with
    | nil => exact absurd h (barred_ne_nil hname rest)
    | cons other more =>
      have hother := ho other List.mem_cons_self
      cases rest with
      | nil =>
        cases more with
        | nil =>
          rw [barred_singleton, barred_singleton] at h
          rw [String.toList_inj.mp h]
        | cons next more =>
          rw [barred_singleton, barred_cons_cons] at h
          exact absurd (by simp [h]) hname.space_not_mem
      | cons next rest =>
        cases more with
        | nil =>
          rw [barred_singleton, barred_cons_cons] at h
          exact absurd (by simp [← h]) hother.space_not_mem
        | cons next' more =>
          rw [barred_cons_cons, barred_cons_cons] at h
          obtain ⟨hhead, htail⟩ := Registry.append_cons_injective hname.space_not_mem hother.space_not_mem h
          simp only [List.cons.injEq, true_and] at htail
          have hrest := ih (List.forall_mem_cons.mp hn).2 (List.forall_mem_cons.mp ho).2 htail
          rw [String.toList_inj.mp hhead, hrest]

/-- Before the last name there is nothing, or a bar and a space. -/
theorem exists_barred_eq (name : String) (rest : List String) : ∃ last ∈ name :: rest,
    barred (name :: rest) = last.toList ∨ ∃ before, barred (name :: rest) = before ++ ' ' :: last.toList := by
  induction rest generalizing name with
  | nil => exact ⟨name, List.mem_cons_self, .inl (barred_singleton name)⟩
  | cons next rest ih =>
    obtain ⟨last, hmem, hlast⟩ := ih next
    refine ⟨last, List.mem_cons_of_mem _ hmem, .inr ?_⟩
    rw [barred_cons_cons]
    rcases hlast with hlast | ⟨before, hlast⟩
    · exact ⟨name.toList ++ [' ', '|'], by simp [hlast]⟩
    · exact ⟨name.toList ++ ' ' :: '|' :: ' ' :: before, by simp [hlast]⟩

/-- Where null is no name, names with bars between them do not end as what may be null does. -/
theorem barred_ne_append_null {names : List String} (h : ∀ name ∈ names, Sdl.IsWord name ∧ name ≠ "null")
    (inner : List Char) : barred names ≠ inner ++ " | null".toList := by
  intro heq
  cases names with
  | nil => simp [barred] at heq
  | cons name rest =>
    obtain ⟨last, hmem, hlast⟩ := exists_barred_eq name rest
    obtain ⟨hword, hnull⟩ := h last hmem
    have hend : inner ++ " | null".toList = (inner ++ [' ', '|']) ++ ' ' :: "null".toList := by simp
    rcases hlast with hlast | ⟨before, hlast⟩
    · rw [hlast] at heq
      exact hword.space_not_mem (by simp [heq])
    · rw [hlast, hend] at heq
      have hreverse := congrArg List.reverse heq
      simp only [List.reverse_append, List.reverse_cons, List.append_assoc, List.singleton_append] at hreverse
      have hspace : ' ' ∉ last.toList.reverse := by simpa using hword.space_not_mem
      obtain ⟨hname, -⟩ := Registry.append_cons_injective hspace (by decide) hreverse
      exact hnull (String.toList_inj.mp (List.reverse_injective hname))

end Alternatives

namespace Shape

theorem toList_union (names : List String) : (union names).print.toList = '(' :: (barred names ++ [')']) := by
  simp [print, barred, String.toList_append]

theorem toList_maybeNull (inner : Shape) : (maybeNull inner).print.toList =
    '(' :: ((inner.print.toList ++ " | null".toList) ++ [')']) := by
  simp [print, String.toList_append]

theorem toList_array (item : Shape) : (array item).print.toList = item.print.toList ++ ['[', ']'] := by
  simp [print, String.toList_append]

section Forms

variable {name : String} {a : Shape} {text : List Char}

theorem word_ne_paren (h : Sdl.IsWord name) (ha : a.print.toList = '(' :: text) :
    (word name).print ≠ a.print := by
  intro heq
  have hlist : name.toList = '(' :: text := ha ▸ congrArg String.toList heq
  have hpart := h.2 '(' (by simp [hlist])
  revert hpart
  decide

theorem word_ne_array (h : Sdl.IsWord name) (item : Shape) : (word name).print ≠ (array item).print := by
  intro heq
  have hlist : name.toList = item.print.toList ++ ['[', ']'] :=
    toList_array item ▸ congrArg String.toList heq
  have hpart := h.2 ']' (by simp [hlist])
  revert hpart
  decide

theorem paren_ne_array (ha : a.print.toList = '(' :: (text ++ [')'])) (item : Shape) :
    a.print ≠ (array item).print := by
  intro heq
  have hlist := congrArg String.toList heq
  rw [ha, toList_array] at hlist
  have hlast := congrArg List.getLast? hlist
  simp [List.getLast?_append, List.getLast?_cons] at hlast

/-- A union and what may be null are told apart by the last word. -/
theorem union_ne_maybeNull {names : List String} (h : (union names).Proper) (inner : Shape) :
    (union names).print ≠ (maybeNull inner).print := by
  intro heq
  have hlist := congrArg String.toList heq
  rw [toList_union, toList_maybeNull] at hlist
  have hbarred := List.append_cancel_right (List.cons.inj hlist).2
  exact barred_ne_append_null h _ hbarred

end Forms

/-- Proper shapes that print alike are the same. -/
theorem print_injective {a b : Shape} (ha : a.Proper) (hb : b.Proper) (h : a.print = b.print) :
    a = b := by
  have hlist := congrArg String.toList h
  induction a generalizing b with
  | word name =>
    cases b with
    | word other => exact congrArg word h
    | union names => exact absurd h (word_ne_paren ha (toList_union names))
    | maybeNull inner => exact absurd h (word_ne_paren ha (toList_maybeNull inner))
    | array item => exact absurd h (word_ne_array ha item)
  | union names =>
    cases b with
    | word other => exact absurd h.symm (word_ne_paren hb (toList_union names))
    | union others =>
      rw [toList_union, toList_union] at hlist
      have hbarred := List.append_cancel_right (List.cons.inj hlist).2
      rw [barred_injective (fun n hn => (ha n hn).1) (fun n hn => (hb n hn).1) hbarred]
    | maybeNull inner => exact absurd h (union_ne_maybeNull ha inner)
    | array item => exact absurd h (paren_ne_array (toList_union names) item)
  | maybeNull inner ih =>
    cases b with
    | word other => exact absurd h.symm (word_ne_paren hb (toList_maybeNull inner))
    | union names => exact absurd h.symm (union_ne_maybeNull hb inner)
    | maybeNull other =>
      rw [toList_maybeNull, toList_maybeNull] at hlist
      have hinner := List.append_cancel_right (List.append_cancel_right (List.cons.inj hlist).2)
      have hproper : other.Proper := hb
      rw [ih ha hproper (String.toList_inj.mp hinner) hinner]
    | array item => exact absurd h (paren_ne_array (toList_maybeNull inner) item)
  | array item ih =>
    cases b with
    | word other => exact absurd h.symm (word_ne_array hb item)
    | union names => exact absurd h.symm (paren_ne_array (toList_union names) item)
    | maybeNull inner => exact absurd h.symm (paren_ne_array (toList_maybeNull inner) item)
    | array other =>
      rw [toList_array, toList_array] at hlist
      have hitem := List.append_cancel_right hlist
      have hproper : other.Proper := hb
      rw [ih ha hproper (String.toList_inj.mp hitem) hitem]

end Shape

end CheckedModels
