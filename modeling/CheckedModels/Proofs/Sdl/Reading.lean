import CheckedModels.Proofs.Sdl.Grammar
import CheckedModels.Proofs.Sdl.Spelling

/-! Parsers that read given tokens: each step of a parser reads its part, if what comes next does not
let it go on. -/
namespace CheckedModels.Sdl

namespace Tokens

def Readable (ts : Tokens) : Prop := ∀ e, ts ≠ .broken e

variable {ls ms : List Lexeme} {ts rest : Tokens}

theorem Begins.append_iff : Begins (ls ++ ms) ts rest ↔ ∃ mid, Begins ls ts mid ∧ Begins ms mid rest := by
  induction ls generalizing ts with
  | nil =>
    refine ⟨fun h => ⟨ts, .nil ts, h⟩, ?_⟩
    rintro ⟨mid, h, hrest⟩
    cases h
    exact hrest
  | cons l ls ih =>
    constructor
    · intro h
      cases h with
      | cons h =>
        obtain ⟨mid, hmid, hrest⟩ := ih.mp h
        exact ⟨mid, .cons hmid, hrest⟩
    · rintro ⟨mid, h, hrest⟩
      cases h with
      | cons h => exact .cons (ih.mpr ⟨mid, h, hrest⟩)

theorem Begins.head?_eq (h : Begins ls ts rest) : ts.head? = ls.head?.or rest.head? := by
  cases h <;> rfl

theorem Begins.readable (h : Begins ls ts rest) (hrest : rest.Readable) : ts.Readable := by
  cases h with
  | nil => exact hrest
  | cons => exact fun e => Tokens.noConfusion

theorem Begins.size_eq (h : Begins ls ts rest) : ts.size = ls.length + rest.size := by
  induction h with
  | nil => simp
  | cons _ ih =>
    simp only [size, List.length_cons, ih]
    omega

theorem readable_eq (h : ts.Readable) : Parser.readable ts = .ok ts := by
  cases ts with
  | done | next => rfl
  | broken e => exact absurd rfl (h e)

end Tokens

/-- None of these punctuators comes next. -/
def Apart (ps : List Punctuator) (next : Option Lexeme) : Prop :=
  ∀ p ∈ ps, next ≠ some (.punctuator p)

/-- The parser reads these tokens and gives the result, if what comes next is as it has to be. -/
def Reads {α : Type} (parser : Parser α) (ls : List Lexeme) (a : α) (next : Option Lexeme → Prop) :
    Prop :=
  ∀ ts rest, Tokens.Begins ls ts rest → rest.Readable → next rest.head? → parser ts = .ok (a, rest)

namespace Reads

variable {α β : Type} {p : Parser α} {q : α → Parser β} {ls ms : List Lexeme} {a : α} {b : β}
  {P Q : Option Lexeme → Prop}

theorem mono (h : Reads p ls a P) (hQ : ∀ next, Q next → P next) : Reads p ls a Q :=
  fun ts rest hbegins hrest hnext => h ts rest hbegins hrest (hQ _ hnext)

protected theorem pure (a : α) : Reads (pure a) [] a fun _ => True := by
  intro ts rest hbegins _ _
  cases hbegins
  rfl

/-- One parser after the other. The first comes to the tokens of the second. -/
theorem bind (hp : Reads p ls a P) (hq : Reads (q a) ms b Q)
    (hnext : ∀ next, Q next → P (ms.head?.or next)) : Reads (p >>= q) (ls ++ ms) b Q := by
  intro ts rest hbegins hrest hQ
  obtain ⟨mid, hfirst, hsecond⟩ := Tokens.Begins.append_iff.mp hbegins
  have hmid : P mid.head? := hsecond.head?_eq ▸ hnext _ hQ
  change (p ts >>= fun r => q r.1 r.2) = _
  rw [hp ts mid hfirst (hsecond.readable hrest) hmid]
  exact hq mid rest hsecond hrest hQ

/-- A parser of one token, whatever comes next. -/
theorem bind_cons {l : Lexeme} (hp : Reads p [l] a fun _ => True) (hq : Reads (q a) ms b Q) :
    Reads (p >>= q) (l :: ms) b Q := hp.bind hq fun _ _ => trivial

/-- A parser that looks at what comes next without taking it. -/
theorem bind_nil (hp : Reads p [] a P) (hq : Reads (q a) ms b Q)
    (hnext : ∀ next, Q next → P (ms.head?.or next)) : Reads (p >>= q) ms b Q := hp.bind hq hnext

/-- The last step of a parser takes no token. -/
theorem bind_last (hp : Reads p ls a P) (hq : Reads (q a) [] b fun _ => True) :
    Reads (p >>= q) ls b P := by
  have h := hp.bind (hq.mono fun _ (_ : P _) => trivial) fun _ hnext => hnext
  rwa [List.append_nil] at h

theorem bind_pure (hp : Reads p ls a P) (f : α → β) : Reads (p >>= fun a => pure (f a)) ls (f a) P :=
  hp.bind_last (.pure (f a))

end Reads

namespace Parser

theorem advance_next {token : Token} {rest : Tokens} (h : rest.Readable) :
    advance (.next token rest) = .ok ((), rest) := by
  change (readable rest >>= fun ts => Except.ok (ts, Tokens.next token rest)) >>= _ = _
  rw [Tokens.readable_eq h]
  rfl

theorem reads_advance (l : Lexeme) : Reads advance [l] () fun _ => True := by
  intro ts rest hbegins hrest _
  cases hbegins with
  | cons h =>
    cases h
    exact advance_next hrest

theorem reads_nextIs (l : Lexeme) (b : Bool) :
    Reads (nextIs l) [] b fun next => decide (next = some l) = b := by
  intro ts rest hbegins _ hnext
  cases hbegins
  cases hnext
  rfl

theorem reads_accept (l : Lexeme) : Reads (accept l) [l] true fun _ => True :=
  (reads_nextIs l true).bind_nil ((reads_advance l).bind_cons (.pure true)) fun _ _ => by simp

theorem reads_accept_not (l : Lexeme) : Reads (accept l) [] false fun next => next ≠ some l :=
  (reads_nextIs l false).bind_nil ((Reads.pure false).mono fun _ _ => trivial)
    fun _ hnext => decide_eq_false hnext

theorem reads_expect (p : Punctuator) : Reads (expect p) [.punctuator p] () fun _ => True :=
  (reads_accept _).bind_cons (.pure ())

theorem reads_keyword (word : String) : Reads (expectKeyword word) [.name word] () fun _ => True :=
  (reads_accept _).bind_cons (.pure ())

theorem reads_peek {α : Type} {q : Option Lexeme → Parser α} {ls : List Lexeme} {a : α}
    {Q : Option Lexeme → Prop} (h : ∀ next, Q next → Reads (q (ls.head?.or next)) ls a Q) :
    Reads (peek >>= q) ls a Q := by
  intro ts rest hbegins hrest hnext
  change q ts.head? ts = _
  rw [hbegins.head?_eq]
  exact h _ hnext ts rest hbegins hrest hnext

theorem reads_get {α : Type} {q : Tokens → Parser α} {ls : List Lexeme} {a : α}
    {Q : Option Lexeme → Prop}
    (h : ∀ ts next, Q next → ts.head? = ls.head?.or next → Reads (q ts) ls a Q) :
    Reads (get >>= q) ls a Q := by
  intro ts rest hbegins hrest hnext
  exact h ts _ hnext hbegins.head?_eq ts rest hbegins hrest hnext

/-- A look at the tokens after the current one. -/
theorem reads_following {α : Type} {q : Tokens → Parser α} {l : Lexeme} {ls : List Lexeme} {a : α}
    {Q : Option Lexeme → Prop}
    (h : ∀ ts next, Q next → ts.head? = ls.head?.or next → Reads (q ts) (l :: ls) a Q) :
    Reads (following >>= q) (l :: ls) a Q := by
  intro ts rest hbegins hrest hnext
  cases hbegins with
  | @cons _ _ start tail _ htail =>
    have hfollowing : following (.next ⟨start, l⟩ tail) = .ok (tail, .next ⟨start, l⟩ tail) := by
      change (readable tail >>= fun ts => Except.ok (ts, Tokens.next ⟨start, l⟩ tail)) = _
      rw [Tokens.readable_eq (htail.readable hrest)]
      rfl
    change (following _ >>= fun r => q r.1 r.2) = _
    rw [hfollowing]
    exact h tail _ hnext htail.head?_eq _ rest (.cons htail) hrest hnext

theorem reads_name (n : String) : Reads name [.name n] n fun _ => True :=
  reads_peek fun _ _ => (reads_advance _).bind_cons (.pure n)

section Items

variable {ι α : Type} {item : Parser α}

/-- Each item is read. It begins with no closing punctuator, and may be followed by another item and by
what closes the items. -/
structure ReadsItems (item : Parser α) (close : Punctuator) (xs : List ι) (lex : ι → List Lexeme)
    (res : ι → α) (P : Option Lexeme → Prop) : Prop where
  reads : ∀ x ∈ xs, Reads item (lex x) (res x) P
  start : ∀ x ∈ xs, ∃ l more, lex x = l :: more ∧ l ≠ .punctuator close ∧ P (some l)
  close : P (some (.punctuator close))

variable {close : Punctuator} {xs : List ι} {lex : ι → List Lexeme} {res : ι → α}
  {P : Option Lexeme → Prop}

theorem itemsUntil_last {a : α} {ts mid rest : Tokens} (hitem : item ts = .ok (a, mid))
    (hclosed : accept (.punctuator close) mid = .ok (true, rest)) :
    itemsUntil close item ts = .ok ([a], rest) := by
  rw [itemsUntil]
  simp [StateT.run, hitem, hclosed, bind, Except.bind, pure, Except.pure]

theorem itemsUntil_more {a : α} {ts mid : Tokens} (hitem : item ts = .ok (a, mid))
    (hopen : accept (.punctuator close) mid = .ok (false, mid)) (hsize : mid.size < ts.size) :
    itemsUntil close item ts = (itemsUntil close item mid).map fun r => (a :: r.1, r.2) := by
  rw [itemsUntil]
  simp only [StateT.run, hitem, hopen, hsize, bind, Except.bind, pure, Except.pure, if_true,
    Bool.false_eq_true, if_false]
  cases itemsUntil close item mid <;> rfl

/-- Items are read up to the closing punctuator. -/
theorem reads_itemsUntil (h : ReadsItems item close xs lex res P) (hne : xs ≠ []) :
    Reads (itemsUntil close item) ((xs.map lex).flatten ++ [.punctuator close]) (xs.map res)
      fun _ => True := by
  induction xs with
  | nil => exact absurd rfl hne
  | cons x xs ih =>
    intro ts rest hbegins hrest _
    rw [List.map_cons, List.flatten_cons, List.append_assoc] at hbegins
    obtain ⟨mid, hfirst, hlater⟩ := Tokens.Begins.append_iff.mp hbegins
    have hmid : mid.Readable := hlater.readable hrest
    have hread := h.reads x List.mem_cons_self ts mid hfirst hmid
    cases xs with
    | nil =>
      have hhead : mid.head? = some (.punctuator close) := hlater.head?_eq
      exact itemsUntil_last (hread (hhead ▸ h.close)) (reads_accept _ mid rest hlater hrest trivial)
    | cons y ys =>
      obtain ⟨l, more, hy, hclose, hP⟩ := h.start y (by simp)
      have hhead : mid.head? = some l := by
        rw [hlater.head?_eq, List.map_cons, List.flatten_cons, hy]
        rfl
      have hopen : accept (.punctuator close) mid = .ok (false, mid) :=
        reads_accept_not _ mid mid (.nil mid) hmid (by simpa [hhead] using hclose)
      have hsize : mid.size < ts.size := by
        obtain ⟨l', more', hx, -⟩ := h.start x List.mem_cons_self
        rw [hfirst.size_eq, hx]
        simp
      have hothers : ReadsItems item close (y :: ys) lex res P :=
        ⟨fun z hz => h.reads z (List.mem_cons_of_mem x hz),
          fun z hz => h.start z (List.mem_cons_of_mem x hz), h.close⟩
      rw [itemsUntil_more (hread (hhead ▸ hP)) hopen hsize,
        ih hothers (by simp) mid rest hlater hrest trivial]
      rfl

/-- Items in brackets that are left out where there is no item. -/
theorem reads_optionalBetween (start : Punctuator) (h : ReadsItems item close xs lex res P) :
    Reads (optionalBetween start close item) (Grammar.enclosed start close (xs.map lex)) (xs.map res)
      (Apart [start]) := by
  unfold optionalBetween Grammar.enclosed
  by_cases hne : xs = []
  · subst hne
    refine (reads_accept_not (.punctuator start)).bind_nil ((Reads.pure []).mono fun _ _ => trivial) ?_
    exact fun next (hnext : Apart [start] next) => hnext start List.mem_cons_self
  · rw [if_neg (by simpa using hne)]
    exact (reads_accept _).bind_cons ((reads_itemsUntil h hne).mono fun _ _ => trivial)

theorem reads_someBetween (start : Punctuator) (h : ReadsItems item close xs lex res P)
    (hne : xs ≠ []) :
    Reads (someBetween start close item) (Grammar.enclosed start close (xs.map lex)) (xs.map res)
      fun _ => True := by
  unfold Grammar.enclosed
  rw [if_neg (by simpa using hne)]
  exact (reads_expect start).bind_cons (reads_itemsUntil h hne)

/-- Items in brackets that stay where there is no item. -/
theorem reads_anyBetween (start : Punctuator) (h : ReadsItems item close xs lex res P) :
    Reads (anyBetween start close item)
      (.punctuator start :: ((xs.map lex).flatten ++ [.punctuator close])) (xs.map res)
      fun _ => True := by
  refine (reads_expect start).bind_cons ?_
  cases xs with
  | nil => exact (reads_accept _).bind_cons (.pure [])
  | cons x xs =>
    obtain ⟨l, more, hx, hclose, -⟩ := h.start x List.mem_cons_self
    refine (reads_accept_not _).bind_nil (reads_itemsUntil h (by simp)) ?_
    rw [List.map_cons, List.flatten_cons, hx]
    simpa using hclose

theorem separated_last {mark : Punctuator} {a : α} {ts mid : Tokens} (hitem : item ts = .ok (a, mid))
    (hlast : accept (.punctuator mark) mid = .ok (false, mid)) :
    separated mark item ts = .ok ([a], mid) := by
  rw [separated]
  simp [StateT.run, hitem, hlast, bind, Except.bind, pure, Except.pure]

theorem separated_more {mark : Punctuator} {a : α} {ts mid next : Tokens}
    (hitem : item ts = .ok (a, mid)) (hmore : accept (.punctuator mark) mid = .ok (true, next))
    (hsize : next.size < ts.size) : separated mark item ts =
      (separated mark item next).map fun r => (a :: r.1, r.2) := by
  rw [separated]
  simp only [StateT.run, hitem, hmore, hsize, bind, Except.bind, pure, Except.pure, if_true,
    Bool.not_true, Bool.false_eq_true, if_false]
  cases separated mark item next <;> rfl

theorem reads_separated {mark : Punctuator} {names : List String} {res : String → α} (hne : names ≠ [])
    (hitem : ∀ n ∈ names, Reads item [.name n] (res n) fun _ => True) :
    Reads (separated mark item) (Grammar.separatedBy mark names) (names.map res) (Apart [mark]) := by
  induction names with
  | nil => exact absurd rfl hne
  | cons n names ih =>
    intro ts rest hbegins hrest hnext
    cases names with
    | nil =>
      have hread := hitem n List.mem_cons_self ts rest hbegins hrest trivial
      have hlast := reads_accept_not (.punctuator mark) rest rest (.nil rest) hrest
        (hnext mark List.mem_cons_self)
      exact separated_last hread hlast
    | cons m names =>
      rw [Grammar.separatedBy] at hbegins
      cases hbegins with
      | @cons _ _ start mid _ hmark =>
        have hread : item (.next ⟨start, .name n⟩ mid) = .ok (res n, mid) :=
          hitem n List.mem_cons_self _ mid (.cons (.nil mid)) (hmark.readable hrest) trivial
        cases hmark with
        | @cons _ _ place tail _ hlater =>
          have hmore : accept (.punctuator mark) (.next ⟨place, .punctuator mark⟩ tail) =
              .ok (true, tail) :=
            reads_accept _ _ tail (.cons (.nil tail)) (hlater.readable hrest) trivial
          have hothers := ih (by simp) (fun z hz => hitem z (List.mem_cons_of_mem n hz)) tail rest
            hlater hrest hnext
          rw [separated_more hread hmore (by simp only [Tokens.size]; omega), hothers]
          rfl
      · exact List.cons_ne_nil m names

/-- Names with a mark between them, and perhaps one before the first. -/
theorem reads_delimited {mark : Punctuator} (leading : Bool) {names : List String} {res : String → α}
    (hne : names ≠ []) (hitem : ∀ n ∈ names, Reads item [.name n] (res n) fun _ => True) :
    Reads (delimited mark item) (Grammar.delimitedBy mark leading names) (names.map res)
      (Apart [mark]) := by
  cases leading with
  | true => exact (reads_accept _).bind_cons (reads_separated hne hitem)
  | false =>
    refine (reads_accept_not _).bind_nil (reads_separated hne hitem) fun next _ => ?_
    cases names with
    | nil => exact absurd rfl hne
    | cons n names => cases names <;> simp [Grammar.delimitedBy, Grammar.separatedBy]

end Items

end Parser

end CheckedModels.Sdl
