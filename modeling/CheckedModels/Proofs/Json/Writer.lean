import CheckedModels.Proofs.Json.Strings

/-! Documents of strings, arrays and objects are told apart by what is written for them. -/
namespace CheckedModels.Json

/-- Nothing but whole text, arrays and objects. -/
inductive OfStrings : Json → Prop where
  | str (s : String) : OfStrings (.str (.whole s))
  | arr {items : List Json} (h : ∀ x ∈ items, OfStrings x) : OfStrings (.arr items)
  | obj {members : Members} (names : ∀ e ∈ members, ∃ name, e.1 = .whole name)
    (h : ∀ e ∈ members, OfStrings e.2) : OfStrings (.obj members)

theorem ofStrings_record {members : Entries Json} (h : ∀ e ∈ members, OfStrings e.2) :
    (record members).OfStrings := by
  refine .obj (fun e he => ?_) fun e he => ?_
  · obtain ⟨m, -, rfl⟩ := List.mem_map.mp he
    exact ⟨m.1, rfl⟩
  · obtain ⟨m, hm, rfl⟩ := List.mem_map.mp he
    exact h m hm

/-- Where the text of the document ends can be told from the text and what follows. -/
def Ends (a : Json) : Prop := ∀ (b : Json) (depth : Nat) (s t : List Char), b.OfStrings →
  (indented depth a).toList ++ s = (indented depth b).toList ++ t → a = b ∧ s = t

section Lines

variable (depth : Nat)

/-- An item on a line of its own. -/
def itemLine (item : Json) : List Char := (lineStart depth).toList ++ (indented depth item).toList

def memberLine (e : Text × Json) : List Char :=
  (lineStart depth).toList ++ ((stringText e.1).toList ++ ':' :: ' ' :: (indented depth e.2).toList)

theorem toList_indentedItems (items : List Json) :
    (indentedItems depth items).toList = items.flatMap fun x => ',' :: itemLine depth x := by
  induction items with
  | nil => simp [indentedItems]
  | cons item rest ih => simp [indentedItems, String.toList_append, ih, itemLine]

theorem toList_indentedMembers (members : Members) :
    (indentedMembers depth members).toList = members.flatMap fun e => ',' :: memberLine depth e := by
  induction members with
  | nil => simp [indentedMembers]
  | cons e rest ih => simp [indentedMembers, String.toList_append, ih, memberLine]

theorem toList_arr_cons (item : Json) (rest : List Json) :
    (indented depth (.arr (item :: rest))).toList = '[' :: (itemLine (depth + 1) item ++
      ((rest.flatMap fun x => ',' :: itemLine (depth + 1) x) ++
        '\n' :: (List.replicate (2 * depth) ' ' ++ [']']))) := by
  simp [indented, lineStart, String.toList_append, toList_indentedItems, itemLine]

theorem toList_obj_cons (e : Text × Json) (rest : Members) :
    (indented depth (.obj (e :: rest))).toList = '\x7b' :: (memberLine (depth + 1) e ++
      ((rest.flatMap fun f => ',' :: memberLine (depth + 1) f) ++
        '\n' :: (List.replicate (2 * depth) ' ' ++ ['\x7d']))) := by
  simp [indented, lineStart, String.toList_append, toList_indentedMembers, memberLine]

variable {depth} {s t : List Char}

theorem itemLine_append_inj {x y : Json} (hx : Ends x) (hy : y.OfStrings)
    (h : itemLine depth x ++ s = itemLine depth y ++ t) : x = y ∧ s = t := by
  unfold itemLine at h
  rw [List.append_assoc, List.append_assoc] at h
  exact hx y depth s t hy (List.append_cancel_left h)

theorem memberLine_append_inj {e f : Text × Json} (he : Ends e.2) (name : ∃ name, e.1 = .whole name)
    (name' : ∃ name, f.1 = .whole name) (hf : f.2.OfStrings)
    (h : memberLine depth e ++ s = memberLine depth f ++ t) : e = f ∧ s = t := by
  obtain ⟨key, value⟩ := e
  obtain ⟨key', value'⟩ := f
  obtain ⟨text, rfl⟩ : ∃ text, key = .whole text := name
  obtain ⟨text', rfl⟩ : ∃ text, key' = .whole text := name'
  unfold memberLine at h
  simp only [List.append_assoc, List.append_cancel_left_eq] at h
  obtain ⟨rfl, hvalue⟩ := stringText_append_inj h
  simp only [List.cons_append, List.cons.injEq, true_and] at hvalue
  obtain ⟨rfl, hs⟩ := he value' depth s t hf hvalue
  exact ⟨rfl, hs⟩

end Lines

section Blocks

variable {α : Type} {line : α → List Char} {s t : List Char}

/-- Lines after commas, where each line tells its own end and a new line ends them all. -/
theorem commas_append_inj {xs ys : List α}
    (hline : ∀ x ∈ xs, ∀ y ∈ ys, ∀ s t, line x ++ s = line y ++ t → x = y ∧ s = t)
    (h : (xs.flatMap fun x => ',' :: line x) ++ '\n' :: s =
      (ys.flatMap fun y => ',' :: line y) ++ '\n' :: t) : xs = ys ∧ s = t := by
  induction xs generalizing ys with
  | nil =>
    cases ys with
    | nil => exact ⟨rfl, by simpa using h⟩
    | cons y more => simp at h
  | cons x rest ih =>
    cases ys with
    | nil => simp at h
    | cons y more =>
      simp only [List.flatMap_cons, List.cons_append, List.append_assoc, List.cons.injEq,
        true_and] at h
      obtain ⟨rfl, htail⟩ := hline x List.mem_cons_self y List.mem_cons_self _ _ h
      have hrest : ∀ x ∈ rest, ∀ y ∈ more, ∀ s t, line x ++ s = line y ++ t → x = y ∧ s = t :=
        fun x hx y hy => hline x (List.mem_cons_of_mem _ hx) y (List.mem_cons_of_mem _ hy)
      obtain ⟨rfl, hs⟩ := ih hrest htail
      exact ⟨rfl, hs⟩

theorem block_append_inj {x y : α} {xs ys : List α}
    (hline : ∀ a ∈ x :: xs, ∀ b ∈ y :: ys, ∀ s t, line a ++ s = line b ++ t → a = b ∧ s = t)
    (h : line x ++ ((xs.flatMap fun a => ',' :: line a) ++ '\n' :: s) =
      line y ++ ((ys.flatMap fun b => ',' :: line b) ++ '\n' :: t)) : x :: xs = y :: ys ∧ s = t := by
  apply commas_append_inj hline
  simp only [List.flatMap_cons, List.cons_append, List.append_assoc, h]

end Blocks

theorem ends_str (u : String) : Ends (.str (.whole u)) := by
  intro b depth s t hb h
  cases hb with
  | str u' =>
    obtain ⟨rfl, hs⟩ := stringText_append_inj h
    exact ⟨rfl, hs⟩
  | @arr items _ => cases items <;> simp [indented, stringText] at h
  | @obj members _ _ => cases members <;> simp [indented, stringText] at h

theorem ends_arr {items : List Json} (hx : ∀ x ∈ items, Ends x) : Ends (.arr items) := by
  intro b depth s t hb h
  cases hb with
  | str u => cases items <;> simp [indented, stringText] at h
  | @obj members _ _ => cases items <;> cases members <;> simp [indented] at h
  | @arr others hy =>
    cases items with
    | nil =>
      cases others with
      | nil => exact ⟨rfl, by simpa [indented] using h⟩
      | cons y more => simp [indented, lineStart] at h
    | cons x rest =>
      cases others with
      | nil => simp [indented, lineStart] at h
      | cons y more =>
        rw [toList_arr_cons, toList_arr_cons] at h
        simp only [List.cons_append, List.append_assoc, List.cons.injEq, true_and] at h
        have hblock := block_append_inj (fun a ha b hb _ _ => itemLine_append_inj (hx a ha) (hy b hb)) h
        obtain ⟨hitems, hend⟩ := hblock
        exact ⟨congrArg Json.arr hitems, by simpa using hend⟩

theorem ends_obj {members : Members} (hx : ∀ e ∈ members, Ends e.2)
    (names : ∀ e ∈ members, ∃ name, e.1 = .whole name) : Ends (.obj members) := by
  intro b depth s t hb h
  cases hb with
  | str u => cases members <;> simp [indented, stringText] at h
  | @arr items _ => cases items <;> cases members <;> simp [indented] at h
  | @obj others names' hy =>
    cases members with
    | nil =>
      cases others with
      | nil => exact ⟨rfl, by simpa [indented] using h⟩
      | cons f more => simp [indented, lineStart] at h
    | cons e rest =>
      cases others with
      | nil => simp [indented, lineStart] at h
      | cons f more =>
        rw [toList_obj_cons, toList_obj_cons] at h
        simp only [List.cons_append, List.append_assoc, List.cons.injEq, true_and] at h
        have hblock := block_append_inj (fun a ha b hb _ _ =>
          memberLine_append_inj (hx a ha) (names a ha) (names' b hb) (hy b hb)) h
        obtain ⟨hmembers, hend⟩ := hblock
        exact ⟨congrArg Json.obj hmembers, by simpa using hend⟩

theorem OfStrings.ends {a : Json} (h : a.OfStrings) : Ends a := by
  induction h with
  | str u => exact ends_str u
  | arr _ ih => exact ends_arr ih
  | obj names _ ih => exact ends_obj ih names

/-- Documents of strings that are written alike are the same. -/
theorem write_injective {a b : Json} (ha : a.OfStrings) (hb : b.OfStrings) (h : a.write = b.write) :
    a = b := by
  have hlist : (indented 0 a).toList ++ [] = (indented 0 b).toList ++ [] :=
    congrArg (fun text => text.toList ++ []) h
  exact (ha.ends b 0 [] [] hb hlist).1

end CheckedModels.Json
