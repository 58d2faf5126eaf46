import CheckedModels.Proofs.Registry.PrintedName
import CheckedModels.Sdl.Cursor
import CheckedModels.Sdl.Lexer
import Mathlib.Data.List.TakeWhile
import Mathlib.Tactic.Cases

/-! What parsers give. A property of results is carried through the ways in which parsers are put
together. -/
namespace CheckedModels.Sdl

theorem exists_of_bind_eq_ok {ε α β : Type} {x : Except ε α} {f : α → Except ε β} {b : β}
    (h : x >>= f = .ok b) : ∃ a, x = .ok a ∧ f a = .ok b := by
  cases x with
  | error e => cases h
  | ok a => exact ⟨a, rfl, h⟩

theorem number_ne_name {offset length : Nat} {cs : List Char} {n : String} :
    number offset cs ≠ .ok (.name n, length) := by
  intro h
  unfold number at h
  obtain ⟨whole, -, h⟩ := exists_of_bind_eq_ok h
  obtain ⟨places, -, h⟩ := exists_of_bind_eq_ok h
  obtain ⟨power, -, h⟩ := exists_of_bind_eq_ok h
  have hkind (text : String) :
      (if places + power = 0 then Lexeme.int text else .float text) ≠ .name n := by
    split <;> exact Lexeme.noConfusion
  dsimp only at h
  split at h
  · split at h
    · cases h
    · exact hkind _ (Prod.mk.inj (Except.ok.inj h)).1
  · exact hkind _ (Prod.mk.inj (Except.ok.inj h)).1

theorem dots_ne_name {offset length : Nat} {cs : List Char} {n : String} :
    dots offset cs ≠ .ok (.name n, length) := by
  unfold dots
  split
  · simp
  · exact nofun
  · dsimp only
    split <;> exact nofun
  · exact nofun

theorem isName_of_scan {offset length : Nat} {c : Char} {rest : List Char} {n : String}
    (h : Lexeme.scan offset c rest = .ok (.name n, length)) : IsName n := by
  unfold Lexeme.scan at h
  split at h
  · cases h
  split at h
  · next hstart =>
    obtain ⟨hn, -⟩ := Prod.mk.inj (Except.ok.inj h)
    obtain rfl := Lexeme.name.inj hn
    exact ⟨c, rest.takeWhile isNamePart, by simp, hstart, fun d hd => List.mem_takeWhile_imp hd⟩
  split at h
  · exact absurd h number_ne_name
  split at h
  · exact absurd h dots_ne_name
  split at h
  · split at h
    all_goals
      obtain ⟨_, -, h⟩ := exists_of_bind_eq_ok h
      cases h
  split at h <;> cases h

namespace Tokens

/-- Every token that counts as a name is one. -/
inductive Named : Tokens → Prop where
  | done (offset : Nat) : Named (.done offset)
  | broken (e : Error) : Named (.broken e)
  | next {token : Token} {rest : Tokens} (h : ∀ n, token.lexeme = .name n → IsName n)
    (hrest : Named rest) : Named (.next token rest)

theorem Named.isName {ts : Tokens} (h : ts.Named) {n : String} (hn : ts.head? = some (.name n)) :
    IsName n := by
  cases h with
  | done | broken => cases hn
  | next h _ => exact h n (Option.some.inj hn)

theorem named_scan (offset : Nat) (cs : List Char) : (scan offset cs).Named := by
  fun_induction scan offset cs with
  | case1 offset => exact .done offset
  | case2 _ _ _ _ ih => exact ih
  | case3 _ _ _ _ _ _ ih => exact ih
  | case4 _ _ _ _ _ e => exact .broken e
  | case5 _ _ _ _ _ lexeme length hscan ih =>
    refine .next (fun n hn => ?_) ih
    obtain rfl : lexeme = .name n := hn
    exact isName_of_scan hscan

end Tokens

theorem Parser.exists_of_run_bind {α β : Type} {p : Parser α} {q : α → Parser β}
    {ts rest : Tokens} {b : β} (h : (p >>= q) ts = .ok (b, rest)) :
    ∃ a mid, p ts = .ok (a, mid) ∧ q a mid = .ok (b, rest) := by
  obtain ⟨⟨a, mid⟩, hp, hq⟩ := exists_of_bind_eq_ok (x := p ts) (f := fun r => q r.1 r.2) h
  exact ⟨a, mid, hp, hq⟩

/-- From tokens whose names are names, whatever the parser gives has the property, and such tokens
remain. -/
def Gives {α : Type} (p : Parser α) (P : α → Prop) : Prop :=
  ∀ ts a rest, ts.Named → p ts = .ok (a, rest) → P a ∧ rest.Named

namespace Gives

variable {α β : Type} {p : Parser α} {q : α → Parser β} {P : α → Prop} {Q : β → Prop}

protected theorem pure {a : α} (h : P a) : Gives (pure a) P := by
  intro ts _ _ hts hp
  obtain ⟨rfl, rfl⟩ := Prod.mk.inj (Except.ok.inj hp)
  exact ⟨h, hts⟩

/-- What is given next has to be right for every result that comes before. -/
theorem bind (hp : Gives p P) (hq : ∀ a, P a → Gives (q a) Q) : Gives (p >>= q) Q := by
  intro ts b rest hts h
  obtain ⟨a, mid, hfirst, hsecond⟩ := Parser.exists_of_run_bind h
  obtain ⟨ha, hmid⟩ := hp ts a mid hts hfirst
  exact hq a ha mid b rest hmid hsecond

theorem ite {c : Prop} [Decidable c] {p p' : Parser α} (h : Gives p P) (h' : Gives p' P) :
    Gives (if c then p else p') P := by
  split
  · exact h
  · exact h'

end Gives

/-- What comes of a parser that only moves on. -/
abbrev Keeps {α : Type} (p : Parser α) : Prop := Gives p fun _ => True

namespace Parser

variable {α : Type} {item : Parser α} {P : α → Prop}

theorem gives_fail (offset : Nat) (complaint : Complaint) : Gives (failAt offset complaint) P := by
  intro ts a rest _ h
  cases h

theorem gives_get : Gives (get : Parser Tokens) Tokens.Named := by
  intro ts a rest hts h
  obtain ⟨rfl, rfl⟩ := Prod.mk.inj (Except.ok.inj h)
  exact ⟨hts, hts⟩

theorem keeps_here : Keeps here := gives_get.bind fun _ _ => .pure trivial

theorem gives_peek : Gives peek fun l => ∀ n, l = some (.name n) → IsName n :=
  gives_get.bind fun _ hts => .pure fun _ hn => hts.isName hn

theorem gives_unexpected : Gives unexpected P := gives_get.bind fun _ _ => gives_fail _ _

theorem gives_expected (what : String) : Gives (expected what) P :=
  gives_get.bind fun _ _ => gives_fail _ _

theorem eq_of_readable {ts ts' : Tokens} (h : readable ts = .ok ts') : ts = ts' := by
  cases ts with
  | broken e => cases h
  | done | next => exact Except.ok.inj h

theorem gives_readable {ts : Tokens} (hts : ts.Named) :
    Gives (readable ts : Parser Tokens) Tokens.Named := by
  intro ts' a rest hts' h
  obtain ⟨a', hread, h⟩ := exists_of_bind_eq_ok h
  obtain ⟨rfl, rfl⟩ := Prod.mk.inj (Except.ok.inj h)
  exact ⟨eq_of_readable hread ▸ hts, hts'⟩

theorem gives_following : Gives following Tokens.Named := by
  unfold following
  refine gives_get.bind fun ts hts => ?_
  split
  · cases hts with
    | next _ hrest => exact gives_readable hrest
  · exact .pure hts

theorem keeps_advance : Keeps advance := by
  unfold advance
  refine gives_following.bind fun next hnext => ?_
  intro ts a rest _ h
  obtain ⟨-, rfl⟩ := Prod.mk.inj (Except.ok.inj h)
  exact ⟨trivial, hnext⟩

theorem keeps_nextIs (l : Lexeme) : Keeps (nextIs l) := gives_peek.bind fun _ _ => .pure trivial

theorem keeps_accept (l : Lexeme) : Keeps (accept l) :=
  (keeps_nextIs l).bind fun _ _ => .ite (keeps_advance.bind fun _ _ => .pure trivial) (.pure trivial)

theorem keeps_expect (p : Punctuator) : Keeps (expect p) :=
  (keeps_accept _).bind fun _ _ => .ite (gives_expected _) (.pure trivial)

theorem keeps_keyword (word : String) : Keeps (expectKeyword word) :=
  (keeps_accept _).bind fun _ _ => .ite (gives_expected _) (.pure trivial)

theorem gives_name : Gives name IsName := by
  unfold name
  refine gives_peek.bind fun l hl => ?_
  split
  · exact keeps_advance.bind fun _ _ => .pure (hl _ rfl)
  · exact gives_expected _

/-- A parser of items that goes on while tokens get fewer, and while what follows an item says so. -/
theorem gives_repeated {p : Parser (List α)} (mark : Punctuator) (ends : Bool → Bool) (h : Gives item P)
    (heq : ∀ ts, p ts = do
      let (x, rest) ← item.run ts
      let (marked, rest) ← (accept (.punctuator mark)).run rest
      if ends marked then return ([x], rest)
      if rest.size < ts.size then
        let (xs, rest) ← p rest
        return (x :: xs, rest)
      else return ([x], rest)) : Gives p fun xs => ∀ x ∈ xs, P x := by
  intro ts xs last hts hrun
  induction hn : ts.size using Nat.strong_induction_on generalizing ts xs with
  | _ n ih =>
    rw [heq] at hrun
    obtain ⟨⟨x, mid⟩, hitem, hrun⟩ := exists_of_bind_eq_ok hrun
    obtain ⟨⟨marked, rest⟩, haccept, hrun⟩ := exists_of_bind_eq_ok hrun
    obtain ⟨hx, hmid⟩ := h ts x mid hts hitem
    obtain ⟨-, hrest⟩ := keeps_accept _ mid marked rest hmid haccept
    have hsingle : (∀ y ∈ [x], P y) ∧ rest.Named := ⟨by simpa using hx, hrest⟩
    dsimp only at hrun
    split at hrun
    · cases hrun
      exact hsingle
    split at hrun
    · next hlt =>
      obtain ⟨⟨more, after⟩, hmore, hrun⟩ := exists_of_bind_eq_ok hrun
      cases hrun
      obtain ⟨hall, hlast⟩ := ih rest.size (hn ▸ hlt) rest more hrest hmore rfl
      exact ⟨List.forall_mem_cons.mpr ⟨hx, hall⟩, hlast⟩
    · cases hrun
      exact hsingle

theorem gives_itemsUntil (close : Punctuator) (h : Gives item P) :
    Gives (itemsUntil close item) fun xs => ∀ x ∈ xs, P x :=
  gives_repeated close id h fun ts => by rw [itemsUntil]; rfl

theorem gives_someBetween (start close : Punctuator) (h : Gives item P) :
    Gives (someBetween start close item) fun xs => ∀ x ∈ xs, P x :=
  (keeps_expect start).bind fun _ _ => gives_itemsUntil close h

theorem gives_anyBetween (start close : Punctuator) (h : Gives item P) :
    Gives (anyBetween start close item) fun xs => ∀ x ∈ xs, P x := by
  refine (keeps_expect start).bind fun _ _ => (keeps_accept _).bind fun _ _ => ?_
  exact .ite (.pure (by simp)) (gives_itemsUntil close h)

theorem gives_optionalBetween (start close : Punctuator) (h : Gives item P) :
    Gives (optionalBetween start close item) fun xs => ∀ x ∈ xs, P x := by
  refine (keeps_accept _).bind fun _ _ => ?_
  exact .ite (gives_itemsUntil close h) (.pure (by simp))

theorem gives_separated (mark : Punctuator) (h : Gives item P) :
    Gives (separated mark item) fun xs => ∀ x ∈ xs, P x :=
  gives_repeated mark not h fun ts => by rw [separated]

theorem gives_delimited (mark : Punctuator) (h : Gives item P) :
    Gives (delimited mark item) fun xs => ∀ x ∈ xs, P x :=
  (keeps_accept _).bind fun _ _ => gives_separated mark h

end Parser

end CheckedModels.Sdl
