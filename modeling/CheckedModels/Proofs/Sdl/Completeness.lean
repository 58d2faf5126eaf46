import CheckedModels.Proofs.Sdl.Reading

/-! The parsers of definitions read everything that the grammar has, if brackets are not nested deeper
than the limit. -/
namespace CheckedModels.Sdl

section Apart

variable {ps : List Punctuator} {next : Option Lexeme}

@[simp] theorem apart_none : Apart ps none := fun _ _ => by simp

@[simp] theorem apart_name (n : String) : Apart ps (some (.name n)) := fun _ _ => by simp

@[simp] theorem apart_punctuator {p : Punctuator} : Apart ps (some (.punctuator p)) ↔ p ∉ ps := by
  refine ⟨fun h hp => h p hp rfl, fun hp q hq heq => ?_⟩
  obtain rfl : p = q := by simpa using heq
  exact hp hq

/-- Nothing comes next that lets a definition, or a part of one, go on. -/
def Settled (next : Option Lexeme) : Prop :=
  Apart [.bang, .equals, .at, .openParen, .openBrace, .pipe, .amp] next

theorem Apart.mono {qs : List Punctuator} (h : Apart ps next) (hqs : qs ⊆ ps) : Apart qs next :=
  fun p hp => h p (hqs hp)

/-- What may be left out either comes next or lets come next what comes after it. -/
theorem apart_append {ls ms : List Lexeme} (h : Apart ps (ls.head?.or (ms.head?.or next))) :
    Apart ps ((ls ++ ms).head?.or next) := by
  rwa [List.head?_append, Option.or_assoc]

theorem apart_enclosed {start close : Punctuator} (items : List (List Lexeme)) (hs : start ∉ ps)
    (hnext : Apart ps next) : Apart ps ((Grammar.enclosed start close items).head?.or next) := by
  unfold Grammar.enclosed
  split
  · exact hnext
  · simpa using hs

theorem apart_directives {depth : Nat} (ds : List (Grammar.Directive depth)) (hs : .at ∉ ps)
    (hnext : Apart ps next) : Apart ps ((Grammar.directiveLexemes ds).head?.or next) := by
  cases ds with
  | nil => exact hnext
  | cons => exact apart_punctuator.mpr hs

theorem apart_default {depth : Nat} (c : Option (Grammar.Constant depth)) (hs : .equals ∉ ps)
    (hnext : Apart ps next) : Apart ps ((Grammar.defaultLexemes c).head?.or next) := by
  cases c with
  | none => exact hnext
  | some => exact apart_punctuator.mpr hs

theorem Settled.apart (h : Settled next)
    (hps : ps ⊆ [.bang, .equals, .at, .openParen, .openBrace, .pipe, .amp]) : Apart ps next :=
  Apart.mono h hps

end Apart

namespace Parser

open Grammar

variable {α β : Type} {Q : Option Lexeme → Prop}

section Types

variable {inner : Parser TypeRef} {t : TypeRef} {ms : List Lexeme}

theorem reads_marked (t : TypeRef) : Reads (marked t) [.punctuator .bang] (.nonNull t) fun _ => True :=
  (reads_accept _).bind_cons (.pure _)

theorem reads_unmarked (t : TypeRef) : Reads (marked t) [] t (Apart [.bang]) := by
  refine (reads_accept_not _).bind_nil ((Reads.pure t).mono fun _ _ => trivial) ?_
  exact fun next (hnext : Apart [.bang] next) => hnext .bang List.mem_cons_self

theorem reads_named {n : String} (h : Reads (marked (.named n)) ms t Q) :
    Reads (typeWith inner) (.name n :: ms) t Q := by
  refine (reads_accept_not _).bind_nil ?_ fun _ _ => by simp
  exact (reads_name n).bind_cons h

theorem reads_list {item : TypeRef} (hitem : Reads inner item.lexemes item (Apart [.bang]))
    (h : Reads (marked (.list item)) ms t Q) :
    Reads (typeWith inner) (.punctuator .openBracket :: item.lexemes ++ .punctuator .closeBracket :: ms)
      t Q := by
  have hbracketed : Reads (bracketed inner) (item.lexemes ++ [.punctuator .closeBracket]) (.list item)
      fun _ => True :=
    hitem.bind ((reads_expect _).bind_cons (.pure _)) fun _ _ => by simp
  have hrest := hbracketed.bind h fun _ _ => trivial
  rw [List.append_assoc] at hrest
  exact (reads_accept _).bind_cons hrest

theorem reads_typeWith {bound : Nat}
    (hinner : ∀ item : TypeRef, item.Proper → item.listDepth < bound →
      Reads inner item.lexemes item (Apart [.bang]))
    (hproper : t.Proper) (hdepth : t.listDepth ≤ bound) :
    Reads (typeWith inner) t.lexemes t (Apart [.bang]) := by
  cases t with
  | named n => exact reads_named (reads_unmarked _)
  | list item => exact reads_list (hinner item hproper hdepth) (reads_unmarked _)
  | nonNull u =>
    obtain ⟨hmark, hproper⟩ := hproper
    cases u with
    | named n => exact (reads_named (reads_marked _)).mono fun _ _ => trivial
    | list item =>
      have hlist := reads_list (hinner item hproper hdepth) (reads_marked (.list item))
      refine Reads.mono ?_ fun _ _ => trivial
      simpa [TypeRef.lexemes] using hlist
    | nonNull v => simp [TypeRef.isNonNull] at hmark

theorem reads_typeRef {depth : Nat} (hproper : t.Proper) (hdepth : t.listDepth ≤ depth) :
    Reads (typeRef depth) t.lexemes t (Apart [.bang]) := by
  induction depth generalizing t with
  | zero => exact reads_typeWith (fun _ _ h => absurd h (Nat.not_lt_zero _)) hproper hdepth
  | succ depth ih => exact reads_typeWith (fun _ hp h => ih hp (Nat.le_of_lt_succ h)) hproper hdepth

end Types

section Values

/-- A value begins with no bracket that closes one. -/
theorem exists_value_start {depth : Nat} {ls : List Lexeme} (h : IsConstant depth ls) :
    ∃ l more, ls = l :: more ∧ l ≠ .punctuator .closeBracket := by
  cases h with
  | @scalar _ l h =>
    refine ⟨l, [], rfl, ?_⟩
    rintro rfl
    simp [Lexeme.value?] at h
  | list => exact ⟨_, _, rfl, by simp⟩
  | object => exact ⟨_, _, rfl, by simp⟩

theorem reads_value {depth limit : Nat} {ls : List Lexeme} (h : IsConstant depth ls)
    (hlimit : depth ≤ limit) : Reads (value true limit) ls () fun _ => True := by
  induction h generalizing limit with
  | @scalar depth l h =>
    have hwith : ∀ nested, Reads (valueWith true nested) [l] () fun _ => True := by
      intro nested
      refine reads_peek fun next _ => ?_
      cases l with
      | punctuator p => simp [Lexeme.value?] at h
      | name | int | float | string | blockString => exact reads_advance _
    cases limit <;> exact hwith _
  | @list depth items hitems ih =>
    obtain ⟨limit, rfl⟩ := Nat.exists_eq_add_of_le' (Nat.le_trans (Nat.succ_pos depth) hlimit)
    have hitem : ReadsItems (value true limit) .closeBracket items id (fun _ => ()) fun _ => True :=
      ⟨fun i hi => ih i hi (Nat.le_of_succ_le_succ hlimit),
        fun i hi => by simpa using exists_value_start (hitems i hi), trivial⟩
    have hread := reads_anyBetween .openBracket hitem
    rw [List.map_id] at hread
    exact reads_peek fun next _ => hread.bind_pure fun _ => ()
  | @object depth fields _ ih =>
    obtain ⟨limit, rfl⟩ := Nat.exists_eq_add_of_le' (Nat.le_trans (Nat.succ_pos depth) hlimit)
    have hfield : ReadsItems (do
          let _ ← name
          expect .colon
          value true limit) .closeBrace fields (fun f => .name f.1 :: .punctuator .colon :: f.2)
        (fun _ => ()) fun _ => True :=
      ⟨fun f hf => (reads_name f.1).bind_cons ((reads_expect .colon).bind_cons
        (ih f hf (Nat.le_of_succ_le_succ hlimit))), fun f _ => ⟨_, _, rfl, by simp, trivial⟩, trivial⟩
    exact reads_peek fun next _ => (reads_anyBetween .openBrace hfield).bind_pure fun _ => ()

end Values

theorem reads_peekDescription_name :
    Reads peekDescription [] false fun next => ∃ n, next = some (.name n) := by
  refine reads_peek fun next hnext => ?_
  obtain ⟨n, rfl⟩ := hnext
  exact (Reads.pure false).mono fun _ _ => trivial

theorem reads_peekDescription (d : Description) :
    Reads peekDescription [] true fun next => next = some d.lexeme := by
  refine reads_peek fun next hnext => ?_
  subst hnext
  cases d <;> exact (Reads.pure true).mono fun _ _ => trivial

theorem reads_description (d : Option Description) :
    Reads description (describe d) () fun next => ∃ n, next = some (.name n) := by
  cases d with
  | none =>
    exact reads_peekDescription_name.bind_nil ((Reads.pure ()).mono fun _ _ => trivial) fun _ h => h
  | some d =>
    refine (reads_peekDescription d).bind_nil ((reads_advance d.lexeme).mono fun _ _ => trivial) ?_
    exact fun _ _ => rfl

/-- With its description or without, a name begins with no punctuator. -/
theorem exists_described_start (d : Option Description) {n : String} {more : List Lexeme}
    {close : Punctuator} : ∃ l rest, describe d ++ (.name n :: more) = l :: rest ∧
      l ≠ .punctuator close ∧ Settled (some l) := by
  cases d with
  | none => exact ⟨_, _, rfl, by simp, apart_name n⟩
  | some d => cases d <;> exact ⟨_, _, rfl, by simp [Description.lexeme],
    fun _ _ => by simp [Description.lexeme]⟩

theorem reads_operationWord {word : String} (h : word ∈ ["query", "mutation", "subscription"]) :
    Reads operationWord [.name word] () fun _ => True := by
  refine reads_get fun ts next _ _ => (reads_name word).bind_cons ?_
  rw [List.contains_iff_mem.mpr h]
  exact .pure ()

theorem reads_rootOperation (r : RootOperation) :
    Reads rootOperation r.lexemes () fun _ => True :=
  (reads_operationWord r.known).bind_cons ((reads_expect .colon).bind_cons
    ((reads_name r.type).bind_pure fun _ => ()))

theorem readsItems_rootOperation (rs : List RootOperation) :
    ReadsItems rootOperation .closeBrace rs RootOperation.lexemes (fun _ => ()) fun _ => True :=
  ⟨fun r _ => reads_rootOperation r, fun _ _ => ⟨_, _, rfl, by simp, trivial⟩, trivial⟩

theorem reads_location {word : String} (h : word ∈ locations) :
    Reads location [.name word] () fun _ => True := by
  refine reads_get fun ts next _ _ => (reads_name word).bind_cons ?_
  rw [List.contains_iff_mem.mpr h]
  exact .pure ()

theorem reads_names {mark : Punctuator} (leading : Bool) {names : List String} (hne : names ≠ []) :
    Reads (delimited mark name) (delimitedBy mark leading names) names (Apart [mark]) := by
  have h : Reads (delimited mark name) (delimitedBy mark leading names) (names.map id) (Apart [mark]) :=
    reads_delimited leading hne fun n _ => reads_name n
  rwa [List.map_id] at h

/-- What may follow the interfaces of a record. -/
def Unlisted (next : Option Lexeme) : Prop := Apart [.amp] next ∧ next ≠ some (.name "implements")

/-- What may follow a definition. -/
def Boundary (next : Option Lexeme) : Prop := Settled next ∧ next ≠ some (.name "implements")

theorem Boundary.unlisted {depth : Nat} {next : Option Lexeme} (h : Boundary next)
    (ds : List (Directive depth)) (items : List (List Lexeme)) : Unlisted
      ((directiveLexemes ds ++ enclosed .openBrace .closeBrace items).head?.or next) := by
  refine ⟨apart_append (apart_directives _ (by decide) (apart_enclosed _ (by decide)
    (h.1.apart (by simp)))), ?_⟩
  cases ds with
  | nil =>
    unfold enclosed
    split
    · exact h.2
    · simp [directiveLexemes]
  | cons => simp [directiveLexemes, Directive.lexemes]

theorem reads_interfaces (leading : Bool) (names : List String) :
    Reads interfaces (interfaceLexemes leading names) names Unlisted := by
  unfold interfaces interfaceLexemes
  by_cases hne : names = []
  · subst hne
    refine (reads_accept_not _).bind_nil ((Reads.pure []).mono fun _ (_ : Unlisted _) => trivial) ?_
    exact fun _ hnext => hnext.2
  · rw [if_neg hne]
    exact (reads_accept _).bind_cons ((reads_names leading hne).mono fun _ hnext => hnext.1)

theorem reads_unionMembers (leading : Bool) (names : List String) :
    Reads unionMembers (memberLexemes leading names) names (Apart [.equals, .pipe]) := by
  unfold unionMembers memberLexemes
  by_cases hne : names = []
  · subst hne
    refine (reads_accept_not _).bind_nil
      ((Reads.pure []).mono fun _ (_ : Apart [.equals, .pipe] _) => trivial) ?_
    exact fun _ hnext => hnext .equals List.mem_cons_self
  · rw [if_neg hne]
    exact (reads_accept _).bind_cons ((reads_names leading hne).mono fun _ hnext => hnext.mono (by simp))

theorem reads_adding (kind : Skipped) {added : Bool} (h : added = true) :
    Reads (adding kind added) [] (.skipped kind) fun _ => True := by
  subst h
  exact .pure _

theorem adds_of_or {α β : Type} {xs : List α} {ys : List β} (h : xs ≠ [] ∨ ys ≠ []) :
    (decide (0 < xs.length) || !ys.isEmpty) = true := by
  rcases h with h | h
  · simp [List.length_pos_iff.mpr h]
  · simp [h]

section Parts

variable {depth limit : Nat} (hlimit : depth ≤ limit)

include hlimit

theorem reads_arguments (args : List (Argument depth)) : Reads (arguments true limit)
    (enclosed .openParen .closeParen (args.map Argument.lexemes)) () (Apart [.openParen]) := by
  have hitem : ReadsItems (do
        let _ ← name
        expect .colon
        value true limit) .closeParen args Argument.lexemes (fun _ => ()) fun _ => True :=
    ⟨fun a _ => (reads_name a.name).bind_cons ((reads_expect .colon).bind_cons
      (reads_value a.value.isConstant hlimit)), fun a _ => ⟨_, _, rfl, by simp, trivial⟩, trivial⟩
  exact (reads_optionalBetween .openParen hitem).bind_pure fun _ => ()

theorem reads_directive (d : Directive depth) :
    Reads (directive true limit) d.lexemes () (Apart [.openParen]) :=
  (reads_expect .at).bind_cons ((reads_name d.name).bind_cons (reads_arguments hlimit d.arguments))

/-- Directives are read one after the other, and counted. -/
theorem reads_directives (ds : List (Directive depth)) :
    Reads (constDirectives limit) (directiveLexemes ds) ds.length (Apart [.at, .openParen]) := by
  induction ds with
  | nil =>
    intro ts rest hbegins _ hnext
    cases hbegins
    have hat : ts.head? ≠ some (.punctuator .at) := hnext .at List.mem_cons_self
    rw [constDirectives, directives, if_pos hat]
    rfl
  | cons d ds ih =>
    intro ts rest hbegins hrest hnext
    have hhead : ts.head? = some (.punctuator .at) := hbegins.head?_eq
    obtain ⟨mid, hfirst, hlater⟩ := Tokens.Begins.append_iff.mp hbegins
    -- Without a parenthesis right after it the directive is at its end.
    have hmid : Apart [.openParen] mid.head? := by
      rw [hlater.head?_eq]
      cases ds with
      | nil => exact hnext.mono (by simp)
      | cons => exact apart_punctuator.mpr (by decide)
    have hread : directive true limit ts = .ok ((), mid) :=
      reads_directive hlimit d ts mid hfirst (hlater.readable hrest) hmid
    have hsize : mid.size < ts.size := by
      rw [hfirst.size_eq, Directive.lexemes, List.length_cons]
      omega
    have hothers : directives true limit mid = .ok (ds.length, rest) := ih mid rest hlater hrest hnext
    rw [constDirectives, directives, if_neg (by simp [hhead])]
    simp only [StateT.run, hread, bind, Except.bind, hsize, if_true, hothers]
    rfl

/-- Directives come last, and with them the result. -/
theorem reads_last (ds : List (Directive depth)) (a : α) :
    Reads (constDirectives limit >>= fun _ => pure a) (directiveLexemes ds) a Settled :=
  ((reads_directives hlimit ds).bind_pure fun _ => a).mono fun _ h => h.apart (by simp)

theorem reads_inputValue (v : InputValueDefinition depth) :
    Reads (inputValue limit) v.lexemes v.field Settled := by
  unfold inputValue InputValueDefinition.lexemes
  refine (reads_description v.description).bind ?_ fun _ _ => ⟨v.name, rfl⟩
  refine (reads_name v.name).bind_cons ((reads_expect .colon).bind_cons ?_)
  refine (reads_typeRef v.proper (Nat.le_trans v.shallow hlimit)).bind ?_ fun next hnext => ?_
  · cases v.default with
    | none =>
      refine (reads_accept_not _).bind_nil (reads_last hlimit v.directives v.field) fun _ hnext => ?_
      have hequals : Apart [.equals] _ := hnext.apart (by simp)
      exact apart_directives _ (by decide) hequals .equals List.mem_cons_self
    | some c =>
      refine (reads_accept _).bind_cons ((reads_value c.isConstant hlimit).bind ?_ fun _ _ => trivial)
      exact reads_last hlimit v.directives v.field
  · exact apart_append (apart_default _ (by decide) (apart_directives _ (by decide)
      (hnext.apart (by simp))))

theorem readsItems_inputValue (vs : List (InputValueDefinition depth)) {close : Punctuator}
    (hclose : Settled (some (.punctuator close))) :
    ReadsItems (inputValue limit) close vs InputValueDefinition.lexemes InputValueDefinition.field
      Settled :=
  ⟨fun v _ => reads_inputValue hlimit v, fun v _ => exists_described_start v.description, hclose⟩

theorem reads_field (f : FieldDefinition depth) :
    Reads (field limit) f.lexemes f.field Settled := by
  unfold field FieldDefinition.lexemes
  refine (reads_description f.description).bind ?_ fun _ _ => ⟨f.name, rfl⟩
  refine (reads_name f.name).bind_cons ?_
  refine (reads_optionalBetween .openParen (readsItems_inputValue hlimit f.arguments ?_)).bind ?_ ?_
  · exact apart_punctuator.mpr (by decide)
  · refine (reads_expect .colon).bind_cons ?_
    refine (reads_typeRef f.proper (Nat.le_trans f.shallow hlimit)).bind
      (reads_last hlimit f.directives f.field) fun next hnext => ?_
    exact apart_directives _ (by decide) (hnext.apart (by simp))
  · exact fun _ _ => by simp

theorem reads_enumValue (v : EnumValueDefinition depth) :
    Reads (enumValue limit) v.lexemes v.name Settled := by
  unfold enumValue EnumValueDefinition.lexemes
  refine (reads_description v.description).bind ?_ fun _ _ => ⟨v.name, rfl⟩
  refine reads_get fun ts next _ hhead => ?_
  have hword : ts.head?.bind Lexeme.value? = some v.name := by rw [hhead]; rfl
  have hfree : ["true", "false", "null"].contains v.name = false := by
    simpa using v.free
  simp only [hword, hfree]
  exact (reads_name v.name).bind_cons (reads_last hlimit v.directives v.name)

theorem readsItems_field (fs : List (FieldDefinition depth)) :
    ReadsItems (field limit) .closeBrace fs FieldDefinition.lexemes FieldDefinition.field Settled :=
  ⟨fun f _ => reads_field hlimit f, fun f _ => exists_described_start f.description,
    apart_punctuator.mpr (by decide)⟩

theorem readsItems_enumValue (vs : List (EnumValueDefinition depth)) :
    ReadsItems (enumValue limit) .closeBrace vs EnumValueDefinition.lexemes EnumValueDefinition.name
      Settled :=
  ⟨fun v _ => reads_enumValue hlimit v, fun v _ => exists_described_start v.description,
    apart_punctuator.mpr (by decide)⟩

/-- The parts of a record, whatever is made of them. -/
theorem reads_record {k : String → List String → Nat → List Field → Parser α} (r : Record depth) {a : α}
    (hk : Reads (k r.name r.interfaces r.directives.length (r.fields.map FieldDefinition.field)) [] a
      fun _ => True) :
    Reads (name >>= fun n => interfaces >>= fun is => constDirectives limit >>= fun c =>
      fields limit >>= k n is c) r.lexemes a Boundary := by
  have hfields : Reads (fields limit) (enclosed .openBrace .closeBrace
      (r.fields.map FieldDefinition.lexemes)) (r.fields.map FieldDefinition.field) (Apart [.openBrace]) :=
    reads_optionalBetween .openBrace (readsItems_field hlimit r.fields)
  have hlast := (hfields.bind_last hk).mono fun _ (h : Boundary _) => h.1.apart (by simp)
  refine (reads_name r.name).bind_cons ((reads_interfaces r.leading r.interfaces).bind
    ((reads_directives hlimit r.directives).bind hlast fun _ h => ?_) fun _ h => ?_)
  · exact apart_enclosed _ (by decide) (h.1.apart (by simp))
  · exact h.unlisted r.directives _

/-- A name with directives and one more part, whatever is made of them. -/
theorem reads_body {part : Parser β} {k : String → Nat → β → Parser α} (n : String)
    (ds : List (Directive depth)) {ms : List Lexeme} {b : β} {a : α} (hpart : Reads part ms b Boundary)
    (hms : ∀ next, Boundary next → Apart [.at, .openParen] (ms.head?.or next))
    (hk : Reads (k n ds.length b) [] a fun _ => True) :
    Reads (name >>= fun n => constDirectives limit >>= fun c => part >>= k n c)
      (.name n :: (directiveLexemes ds ++ ms)) a Boundary :=
  (reads_name n).bind_cons ((reads_directives hlimit ds).bind (hpart.bind_last hk) hms)

theorem reads_enumValues (vs : List (EnumValueDefinition depth)) : Reads (enumValues limit)
    (enclosed .openBrace .closeBrace (vs.map EnumValueDefinition.lexemes))
    (vs.map EnumValueDefinition.name) Boundary :=
  (reads_optionalBetween .openBrace (readsItems_enumValue hlimit vs)).mono fun _ h => h.1.apart (by simp)

theorem reads_inputFields (vs : List (InputValueDefinition depth)) : Reads (inputFields limit)
    (enclosed .openBrace .closeBrace (vs.map InputValueDefinition.lexemes))
    (vs.map InputValueDefinition.field) Boundary :=
  (reads_optionalBetween .openBrace (readsItems_inputValue hlimit vs (apart_punctuator.mpr (by decide)))).mono
    fun _ h => h.1.apart (by simp)

theorem reads_recordBody (r : Record depth) :
    Reads (recordBody limit) r.lexemes r.declaration Boundary :=
  reads_record hlimit r (k := fun n is _ fs => pure (⟨n, fs, is⟩ : RecordDeclaration)) (.pure _)

theorem reads_unionParts {k : String → Nat → List String → Parser α} (n : String)
    (ds : List (Directive depth)) (leading : Bool) (members : List String) {a : α}
    (hk : Reads (k n ds.length members) [] a fun _ => True) :
    Reads (name >>= fun n => constDirectives limit >>= fun c => unionMembers >>= k n c)
      (.name n :: (directiveLexemes ds ++ memberLexemes leading members)) a Boundary := by
  refine reads_body hlimit n ds ((reads_unionMembers leading members).mono fun _ h => ?_)
    (fun next hnext => ?_) hk
  · exact h.1.apart (by simp)
  · unfold memberLexemes
    split
    · exact hnext.1.apart (by simp)
    · exact apart_punctuator.mpr (by decide)

theorem reads_itemParts {part : Parser (List β)} {k : String → Nat → List β → Parser α} (n : String)
    (ds : List (Directive depth)) {items : List (List Lexeme)} {b : List β} {a : α}
    (hpart : Reads part (enclosed .openBrace .closeBrace items) b Boundary)
    (hk : Reads (k n ds.length b) [] a fun _ => True) :
    Reads (name >>= fun n => constDirectives limit >>= fun c => part >>= k n c)
      (.name n :: (directiveLexemes ds ++ enclosed .openBrace .closeBrace items)) a Boundary :=
  reads_body hlimit n ds hpart
    (fun _ hnext => apart_enclosed _ (by decide) (hnext.1.apart (by simp))) hk

theorem reads_scalarParts {k : String → Nat → Parser α} (n : String) (ds : List (Directive depth)) {a : α}
    (hk : Reads (k n ds.length) [] a fun _ => True) :
    Reads (name >>= fun n => constDirectives limit >>= k n) (.name n :: directiveLexemes ds) a
      Boundary := by
  have h := (reads_directives hlimit ds).bind_last hk
  exact (reads_name n).bind_cons (h.mono fun _ h => h.1.apart (by simp))

theorem reads_schemaBody (ds : List (Directive depth)) {roots : List RootOperation} (h : roots ≠ []) :
    Reads (schemaBody limit) (directiveLexemes ds ++
      enclosed .openBrace .closeBrace (roots.map RootOperation.lexemes)) (.skipped .schema) Boundary := by
  have hroots := (reads_someBetween .openBrace (readsItems_rootOperation roots) h).bind_pure
    fun _ => Definition.skipped .schema
  refine (reads_directives hlimit ds).bind (hroots.mono fun _ _ => trivial) fun _ hnext => ?_
  exact apart_enclosed _ (by decide) (Settled.apart (And.left hnext) (by simp))

theorem reads_directiveBody (n : String) (args : List (InputValueDefinition depth))
    (ds : List (Directive depth)) (repeatable leading : Bool) {places : List String} (hne : places ≠ [])
    (h : ∀ l ∈ places, l ∈ locations) : Reads (directiveBody limit)
      (Body.directive n args ds repeatable leading places).lexemes (.skipped .directive) Boundary := by
  have hplaces : Reads (delimited .pipe location) (delimitedBy .pipe leading places)
      (places.map fun _ => ()) (Apart [.pipe]) :=
    reads_delimited leading hne fun l hl => reads_location (h l hl)
  have hlast : Reads (expectKeyword "on" >>= fun _ => delimited .pipe location >>= fun _ =>
        pure (Definition.skipped .directive))
      (.name "on" :: delimitedBy .pipe leading places) (.skipped .directive) Boundary :=
    (reads_keyword "on").bind_cons ((hplaces.mono fun _ (h : Boundary _) => h.1.apart (by simp)).bind_pure
      fun _ => Definition.skipped .directive)
  refine (reads_expect .at).bind_cons ((reads_name n).bind_cons ?_)
  refine (reads_optionalBetween .openParen (readsItems_inputValue hlimit args
    (apart_punctuator.mpr (by decide)))).bind ((reads_directives hlimit ds).bind ?_ ?_) ?_
  · cases repeatable with
    | true => exact (reads_accept _).bind_cons hlast
    | false => exact (reads_accept_not _).bind_nil hlast fun _ _ => by simp
  · cases repeatable <;> exact fun _ _ => apart_name _
  · cases repeatable <;> exact fun _ _ => apart_append (apart_directives _ (by decide) (apart_name _))

/-- After the word that tells what is defined, the parser of that definition reads the rest. -/
theorem reads_keywordBody (b : Body depth) (h : b.Defines) : ∃ p, keywordBody? limit b.keyword = some p ∧
    Reads p b.lexemes b.made Boundary := by
  cases b with
  | schema ds roots => exact ⟨_, rfl, reads_schemaBody hlimit ds h⟩
  | scalar n ds =>
    have hscalar := reads_scalarParts hlimit n ds (k := fun n _ => pure (⟨n⟩ : ScalarDeclaration)) (.pure _)
    exact ⟨_, rfl, hscalar.bind_pure fun d => Definition.declared (.scalar d)⟩
  | object r => exact ⟨_, rfl, (reads_recordBody hlimit r).bind_pure fun d => Definition.declared (.object d)⟩
  | interface r =>
    exact ⟨_, rfl, (reads_recordBody hlimit r).bind_pure fun d => Definition.declared (.interface d)⟩
  | union n ds leading members =>
    have hunion := reads_unionParts hlimit n ds leading members
      (k := fun n _ ms => pure (⟨n, ms⟩ : UnionDeclaration)) (.pure _)
    exact ⟨_, rfl, hunion.bind_pure fun d => Definition.declared (.union d)⟩
  | enum n ds values =>
    have henum := reads_itemParts hlimit n ds (k := fun n _ vs => pure (⟨n, vs⟩ : EnumDeclaration))
      (reads_enumValues hlimit values) (.pure _)
    exact ⟨_, rfl, henum.bind_pure fun d => Definition.declared (.enum d)⟩
  | input n ds fields =>
    have hinput := reads_itemParts hlimit n ds (k := fun n _ fs => pure (⟨n, fs⟩ : InputDeclaration))
      (reads_inputFields hlimit fields) (.pure _)
    exact ⟨_, rfl, hinput.bind_pure fun d => Definition.declared (.input d)⟩
  | directive n args ds repeatable leading places =>
    exact ⟨_, rfl, reads_directiveBody hlimit n args ds repeatable leading h.1 h.2⟩

theorem reads_recordExtension (kind : Skipped) (r : Record depth)
    (h : r.interfaces ≠ [] ∨ r.directives ≠ [] ∨ r.fields ≠ []) :
    Reads (recordExtension limit kind) r.lexemes (.skipped kind) Boundary := by
  refine reads_record hlimit r (k := fun _ is c fs =>
    adding kind (!is.isEmpty || 0 < c || !fs.isEmpty)) (reads_adding kind ?_)
  rcases h with h | h | h
  · simp [h]
  · simp [List.length_pos_iff.mpr h]
  · simp [h]

theorem reads_schemaExtension (ds : List (Directive depth)) (roots : List RootOperation)
    (h : ds ≠ [] ∨ roots ≠ []) : ∃ p, extensionBody? limit "schema" = some p ∧
      Reads p (directiveLexemes ds ++ enclosed .openBrace .closeBrace (roots.map RootOperation.lexemes))
        (.skipped .schemaExtension) Boundary := by
  have hroots : Reads (optionalBetween .openBrace .closeBrace rootOperation)
      (enclosed .openBrace .closeBrace (roots.map RootOperation.lexemes)) (roots.map fun _ => ())
      (Apart [.openBrace]) :=
    reads_optionalBetween .openBrace (readsItems_rootOperation roots)
  have hne : ds ≠ [] ∨ (roots.map fun _ => ()) ≠ [] := h.imp_right (by simp)
  have hadds := reads_adding .schemaExtension (adds_of_or hne)
  have hlast := hroots.bind_last
    (q := fun roots => adding .schemaExtension (0 < ds.length || !roots.isEmpty)) hadds
  have hbounded := hlast.mono fun _ (h : Boundary _) => h.1.apart (by simp)
  refine ⟨_, rfl, (reads_directives hlimit ds).bind hbounded fun _ hnext => ?_⟩
  exact apart_enclosed _ (by decide) (hnext.1.apart (by simp))

/-- After the word that tells what is extended, the parser of that extension reads the rest. -/
theorem reads_extensionBody (b : Body depth) (h : b.Extends) :
    ∃ p, extensionBody? limit b.keyword = some p ∧ Reads p b.lexemes (.skipped b.skippedAs) Boundary := by
  cases b with
  | schema ds roots => exact reads_schemaExtension hlimit ds roots h
  | scalar n ds =>
    have hadds : decide (0 < ds.length) = true := by simpa using List.length_pos_iff.mpr h
    exact ⟨_, rfl, reads_scalarParts hlimit n ds
      (k := fun _ c => adding .scalarExtension (0 < c)) (reads_adding _ hadds)⟩
  | object r => exact ⟨_, rfl, reads_recordExtension hlimit .objectExtension r h⟩
  | interface r => exact ⟨_, rfl, reads_recordExtension hlimit .interfaceExtension r h⟩
  | union n ds leading members =>
    refine ⟨_, rfl, reads_unionParts hlimit n ds leading members
      (k := fun _ c ms => adding .unionExtension (0 < c || !ms.isEmpty)) (reads_adding _ ?_)⟩
    exact adds_of_or h
  | enum n ds values =>
    refine ⟨_, rfl, reads_itemParts hlimit n ds
      (k := fun _ c vs => adding .enumExtension (0 < c || !vs.isEmpty))
      (reads_enumValues hlimit values) (reads_adding _ ?_)⟩
    exact adds_of_or (h.imp_right (by simp))
  | input n ds fields =>
    refine ⟨_, rfl, reads_itemParts hlimit n ds
      (k := fun _ c fs => adding .inputExtension (0 < c || !fs.isEmpty))
      (reads_inputFields hlimit fields) (reads_adding _ ?_)⟩
    exact adds_of_or (h.imp_right (by simp))
  | directive => exact absurd h id

theorem reads_directiveExtension (n : String) {ds : List (Directive depth)} (h : ds ≠ []) :
    ∃ p, extensionBody? limit "directive" = some p ∧
      Reads p (.punctuator .at :: .name n :: directiveLexemes ds) (.skipped .directiveExtension)
        Boundary := by
  have hadds : decide (0 < ds.length) = true := by simpa using List.length_pos_iff.mpr h
  exact ⟨_, rfl, (reads_expect .at).bind_cons (reads_scalarParts hlimit n ds
    (k := fun _ c => adding .directiveExtension (0 < c)) (reads_adding _ hadds))⟩

omit hlimit in
/-- Past its description, a definition is read by the word that it begins with. -/
theorem reads_described {d : Option Description} {word : String} {p : Parser Definition}
    {ls : List Lexeme} {made : Definition} (hp : keywordBody? limit word = some p)
    (hbody : Reads p ls made Boundary) :
    Reads (definition limit) (describe d ++ (.name word :: ls)) made Boundary := by
  have hread : Reads (description >>= fun _ => advance >>= fun _ => p)
      (describe d ++ (.name word :: ls)) made Boundary :=
    (reads_description d).bind ((reads_advance _).bind_cons hbody) fun _ _ => ⟨word, rfl⟩
  cases d with
  | none =>
    refine reads_peekDescription_name.bind_nil ?_ fun _ _ => ⟨word, rfl⟩
    refine reads_get fun _ _ _ _ => reads_get fun ts _ _ hhead => ?_
    have hword : ts.head? = some (.name word) := hhead
    simp only [hword, hp]
    exact hread
  | some d =>
    refine (reads_peekDescription d).bind_nil ?_ fun _ _ => rfl
    refine reads_get fun _ _ _ _ => reads_following fun ts _ _ hhead => ?_
    have hword : ts.head? = some (.name word) := hhead
    simp only [hword, hp]
    exact hread

omit hlimit in
theorem reads_extended {word : String} {p : Parser Definition} {ls : List Lexeme} {made : Definition}
    (hp : extensionBody? limit word = some p) (hbody : Reads p ls made Boundary) :
    Reads (definition limit) (.name "extend" :: .name word :: ls) made Boundary := by
  refine reads_peekDescription_name.bind_nil ?_ fun _ _ => ⟨"extend", rfl⟩
  refine reads_get fun _ _ _ _ => reads_get fun ts _ _ hhead => ?_
  have hextend : ts.head? = some (.name "extend") := hhead
  have hnone : keywordBody? limit "extend" = none := rfl
  simp only [hextend, hnone]
  refine reads_following fun ts _ _ hhead => ?_
  have hword : ts.head? = some (.name word) := hhead
  simp only [hword, hp]
  exact (reads_advance _).bind_cons ((reads_advance _).bind_cons hbody)

/-- A definition with its description or without, or an extension. -/
theorem reads_definition (item : Item depth) :
    Reads (definition limit) item.lexemes item.made Boundary := by
  cases item with
  | definition d body complete =>
    obtain ⟨p, hp, hbody⟩ := reads_keywordBody hlimit body complete
    exact reads_described hp hbody
  | extension body adds =>
    obtain ⟨p, hp, hbody⟩ := reads_extensionBody hlimit body adds
    exact reads_extended hp hbody
  | directiveExtension n ds adds =>
    obtain ⟨p, hp, hbody⟩ := reads_directiveExtension hlimit n adds
    exact reads_extended hp hbody

end Parts

end Parser

end CheckedModels.Sdl
