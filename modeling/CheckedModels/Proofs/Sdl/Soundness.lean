import CheckedModels.Declaration.OfText
import CheckedModels.Proofs.Sdl.Plain
import CheckedModels.Proofs.Sdl.Results

/-! The parsers of definitions give nothing but what a schema text can hold. -/
namespace CheckedModels

namespace Sdl

namespace Parser

variable {α : Type} {P : α → Prop}

/-- The mark is put on a type that has none. -/
theorem gives_marked {t : TypeRef} (h : t.Writable) (hmark : t.isNonNull = false) :
    Gives (marked t) TypeRef.Writable :=
  (keeps_accept _).bind fun _ _ => .ite (.pure ⟨⟨hmark, h.1⟩, h.2⟩) (.pure h)

theorem gives_typeWith {inner : Parser TypeRef} (h : Gives inner TypeRef.Writable) :
    Gives (typeWith inner) TypeRef.Writable := by
  refine (keeps_accept _).bind fun _ _ => .ite ?_ ?_
  · refine Gives.bind (P := fun t => t.Writable ∧ t.isNonNull = false) ?_
      fun t ht => gives_marked ht.1 ht.2
    exact h.bind fun t ht => (keeps_expect _).bind fun _ _ => .pure ⟨ht, rfl⟩
  · exact gives_name.bind fun n hn => gives_marked ⟨trivial, hn⟩ rfl

theorem gives_tooDeep : Gives (tooDeep : Parser α) P := keeps_here.bind fun _ _ => gives_fail _ _

theorem gives_typeRef (depth : Nat) : Gives (typeRef depth) TypeRef.Writable := by
  induction depth with
  | zero => exact gives_typeWith gives_tooDeep
  | succ depth ih => exact gives_typeWith ih

section Values

theorem keeps_constantVariable : Keeps constantVariable := by
  refine keeps_here.bind fun _ _ => keeps_advance.bind fun _ _ => gives_peek.bind fun l _ => ?_
  split <;> exact gives_fail _ _

theorem keeps_member {inner : Parser Unit} (h : Keeps inner) :
    Keeps (do
      let _ ← name
      expect .colon
      inner) :=
  gives_name.bind fun _ _ => (keeps_expect _).bind fun _ _ => h

theorem keeps_valueWith (constant : Bool) {nested : Option (Parser Unit)}
    (h : ∀ p ∈ nested, Keeps p) : Keeps (valueWith constant nested) := by
  refine gives_peek.bind fun l _ => ?_
  split
  · split
    · exact gives_tooDeep
    · exact (gives_anyBetween _ _ (h _ rfl)).bind fun _ _ => .pure trivial
  · split
    · exact gives_tooDeep
    · exact (gives_anyBetween _ _ (keeps_member (h _ rfl))).bind fun _ _ => .pure trivial
  · refine .ite keeps_constantVariable ?_
    exact keeps_advance.bind fun _ _ => gives_name.bind fun _ _ => .pure trivial
  · exact gives_unexpected
  · exact gives_unexpected
  · exact keeps_advance

theorem keeps_value (constant : Bool) (depth : Nat) : Keeps (value constant depth) := by
  induction depth with
  | zero => exact keeps_valueWith constant (by simp)
  | succ depth ih => exact keeps_valueWith constant (by simpa using ih)

theorem keeps_arguments (constant : Bool) (depth : Nat) : Keeps (arguments constant depth) :=
  (gives_optionalBetween _ _ (keeps_member (keeps_value constant depth))).bind fun _ _ => .pure trivial

theorem keeps_directive (constant : Bool) (depth : Nat) : Keeps (directive constant depth) :=
  (keeps_expect _).bind fun _ _ => gives_name.bind fun _ _ => keeps_arguments constant depth

theorem keeps_directives (constant : Bool) (depth : Nat) : Keeps (directives constant depth) := by
  intro ts count last hts hrun
  induction hn : ts.size using Nat.strong_induction_on generalizing ts count with
  | _ n ih =>
    rw [directives] at hrun
    split at hrun
    · cases hrun
      exact ⟨trivial, hts⟩
    obtain ⟨⟨⟨⟩, rest⟩, hfirst, hrun⟩ := exists_of_bind_eq_ok hrun
    obtain ⟨-, hrest⟩ := keeps_directive constant depth ts () rest hts hfirst
    dsimp only at hrun
    split at hrun
    · next hlt =>
      obtain ⟨⟨more, after⟩, hlater, hrun⟩ := exists_of_bind_eq_ok hrun
      cases hrun
      exact ⟨trivial, (ih rest.size (hn ▸ hlt) rest more hrest hlater rfl).2⟩
    · cases hrun
      exact ⟨trivial, hrest⟩

theorem keeps_description : Keeps description := by
  refine Gives.bind (P := fun _ => True) ?_ fun _ _ => .ite keeps_advance (.pure trivial)
  refine gives_peek.bind fun _ _ => ?_
  split <;> exact .pure trivial

end Values

section Operations

theorem keeps_fragmentName : Keeps fragmentName := by
  refine gives_peek.bind fun _ _ => .ite gives_unexpected ?_
  exact gives_name.bind fun _ _ => .pure trivial

theorem keeps_selectionWith (depth : Nat) {nested : Parser Unit} (h : Keeps nested) :
    Keeps (selectionWith depth nested) := by
  have htail : Keeps (do
      let _ ← directives false depth
      nested) := (keeps_directives false depth).bind fun _ _ => h
  refine (keeps_accept _).bind fun _ _ => .ite ?_ ?_
  · refine (keeps_accept _).bind fun _ _ => .ite (gives_name.bind fun _ _ => htail) ?_
    refine gives_peek.bind fun _ _ => ?_
    split
    · refine keeps_fragmentName.bind fun _ _ => ?_
      exact (keeps_directives false depth).bind fun _ _ => .pure trivial
    · exact htail
  · have hrest : Keeps (do
        arguments false depth
        let _ ← directives false depth
        if ← nextIs (.punctuator .openBrace) then nested) :=
      (keeps_arguments false depth).bind fun _ _ => (keeps_directives false depth).bind fun _ _ =>
        (keeps_nextIs _).bind fun _ _ => .ite h (.pure trivial)
    refine gives_name.bind fun _ _ => (keeps_accept _).bind fun _ _ => .ite ?_ hrest
    exact gives_name.bind fun _ _ => hrest

theorem keeps_selectionSet (depth : Nat) : Keeps (selectionSet depth) := by
  induction depth with
  | zero => exact gives_tooDeep
  | succ depth ih =>
    exact (gives_anyBetween _ _ (keeps_selectionWith depth ih)).bind fun _ _ => .pure trivial

theorem keeps_operationWord : Keeps operationWord :=
  gives_get.bind fun _ _ => gives_name.bind fun _ _ => .ite (gives_fail _ _) (.pure trivial)

variable (limit : Nat)

theorem keeps_variableDefinition : Keeps (variableDefinition limit) := by
  have htail : Keeps (do
      let _ ← constDirectives limit) := (keeps_directives true limit).bind fun _ _ => .pure trivial
  refine keeps_description.bind fun _ _ => (keeps_expect _).bind fun _ _ => ?_
  refine gives_name.bind fun _ _ => (keeps_expect _).bind fun _ _ => ?_
  refine (gives_typeRef limit).bind fun _ _ => ?_
  exact (keeps_accept _).bind fun _ _ => .ite ((keeps_value true limit).bind fun _ _ => htail) htail

end Operations

section Definitions

variable (limit : Nat)

theorem gives_inputValue : Gives (inputValue limit) Field.Writable := by
  refine keeps_description.bind fun _ _ => gives_name.bind fun n hn => ?_
  refine (keeps_expect _).bind fun _ _ => (gives_typeRef limit).bind fun t ht => ?_
  have htail : Gives (do
      let _ ← constDirectives limit
      return (⟨n, t, .unknown⟩ : Field)) Field.Writable :=
    (keeps_directives true limit).bind fun _ _ => .pure ⟨hn, ht, rfl⟩
  exact (keeps_accept _).bind fun _ _ => .ite ((keeps_value true limit).bind fun _ _ => htail) htail

theorem gives_field : Gives (field limit) Field.Writable := by
  refine keeps_description.bind fun _ _ => gives_name.bind fun n hn => ?_
  refine (gives_optionalBetween _ _ (gives_inputValue limit)).bind fun _ _ => ?_
  refine (keeps_expect _).bind fun _ _ => (gives_typeRef limit).bind fun t ht => ?_
  exact (keeps_directives true limit).bind fun _ _ => .pure ⟨hn, ht, rfl⟩

theorem gives_interfaces : Gives interfaces fun is => ∀ i ∈ is, IsName i :=
  (keeps_accept _).bind fun _ _ => .ite (gives_delimited _ gives_name) (.pure (by simp))

theorem gives_unionMembers : Gives unionMembers fun ms => ∀ m ∈ ms, IsName m :=
  (keeps_accept _).bind fun _ _ => .ite (gives_delimited _ gives_name) (.pure (by simp))

theorem head?_of_name {ts rest : Tokens} {n : String} (h : name ts = .ok (n, rest)) :
    ts.head? = some (.name n) := by
  obtain ⟨l, mid, hpeek, h⟩ := exists_of_run_bind h
  obtain ⟨hl, rfl⟩ := Prod.mk.inj (Except.ok.inj hpeek)
  split at h
  · obtain ⟨_, _, -, h⟩ := exists_of_run_bind h
    obtain ⟨rfl, -⟩ := Prod.mk.inj (Except.ok.inj h)
    exact hl
  · cases h

/-- The word that is checked is the name that is taken. -/
theorem gives_enumValue :
    Gives (enumValue limit) fun v => IsName v ∧ v ∉ ["true", "false", "null"] := by
  refine keeps_description.bind fun _ _ ts v rest hts h => ?_
  obtain ⟨_, _, hget, h⟩ := exists_of_run_bind h
  obtain ⟨rfl, rfl⟩ := Prod.mk.inj (Except.ok.inj hget)
  have htail (hfree : ∀ n, ts.head? = some (.name n) → n ∉ ["true", "false", "null"])
      (hrun : (do
        let word ← name
        let _ ← constDirectives limit
        return word : Parser String) ts = .ok (v, rest)) :
      (IsName v ∧ v ∉ ["true", "false", "null"]) ∧ rest.Named := by
    obtain ⟨n, mid, hname, hrun⟩ := exists_of_run_bind hrun
    obtain ⟨hn, hmid⟩ := gives_name ts n mid hts hname
    have hgives : Gives (do
        let _ ← constDirectives limit
        return n) fun v => IsName v ∧ v ∉ ["true", "false", "null"] :=
      (keeps_directives true limit).bind fun _ _ => .pure ⟨hn, hfree n (head?_of_name hname)⟩
    exact hgives mid v rest hmid hrun
  split at h
  · next word hword =>
    split at h
    · obtain ⟨_, _, hfail, -⟩ := exists_of_run_bind h
      cases hfail
    · next hfree =>
      refine htail (fun n hn => ?_) h
      obtain rfl : n = word := by simpa [hn, Lexeme.value?] using hword
      simpa using hfree
  · next hnone =>
    exact htail (fun n hn => by simp [hn, Lexeme.value?] at hnone) h

theorem gives_recordBody : Gives (recordBody limit) fun d =>
    IsName d.name ∧ (∀ f ∈ d.fields, f.Writable) ∧ ∀ i ∈ d.interfaces, IsName i := by
  refine gives_name.bind fun n hn => gives_interfaces.bind fun is his => ?_
  refine (keeps_directives true limit).bind fun _ _ => ?_
  exact (gives_optionalBetween _ _ (gives_field limit)).bind fun fs hfs => .pure ⟨hn, hfs, his⟩

theorem gives_unionBody :
    Gives (unionBody limit) fun d => IsName d.name ∧ ∀ m ∈ d.members, IsName m := by
  refine gives_name.bind fun n hn => (keeps_directives true limit).bind fun _ _ => ?_
  exact gives_unionMembers.bind fun ms hms => .pure ⟨hn, hms⟩

theorem gives_enumBody : Gives (enumBody limit) fun d =>
    IsName d.name ∧ ∀ v ∈ d.values, IsName v ∧ v ∉ ["true", "false", "null"] := by
  refine gives_name.bind fun n hn => (keeps_directives true limit).bind fun _ _ => ?_
  exact (gives_optionalBetween _ _ (gives_enumValue limit)).bind fun vs hvs => .pure ⟨hn, hvs⟩

theorem gives_inputBody :
    Gives (inputBody limit) fun d => IsName d.name ∧ ∀ f ∈ d.fields, f.Writable := by
  refine gives_name.bind fun n hn => (keeps_directives true limit).bind fun _ _ => ?_
  exact (gives_optionalBetween _ _ (gives_inputValue limit)).bind fun fs hfs => .pure ⟨hn, hfs⟩

theorem gives_scalarBody : Gives (scalarBody limit) fun d => IsName d.name :=
  gives_name.bind fun _ hn => (keeps_directives true limit).bind fun _ _ => .pure hn

theorem keeps_rootOperation : Keeps rootOperation :=
  keeps_operationWord.bind fun _ _ => (keeps_expect _).bind fun _ _ =>
    gives_name.bind fun _ _ => .pure trivial

theorem keeps_location : Keeps location :=
  gives_get.bind fun _ _ => gives_name.bind fun _ _ => .ite (gives_fail _ _) (.pure trivial)

end Definitions

end Parser

/-- What declares nothing can always be written. -/
def Definition.Writable : Definition → Prop
  | .declared d => d.Writable
  | .skipped _ => True

namespace Parser

section Documents

variable (limit : Nat)

theorem gives_schemaBody : Gives (schemaBody limit) Definition.Writable :=
  (keeps_directives true limit).bind fun _ _ =>
    (gives_someBetween _ _ keeps_rootOperation).bind fun _ _ => .pure trivial

theorem gives_directiveBody : Gives (directiveBody limit) Definition.Writable := by
  refine (keeps_expect _).bind fun _ _ => gives_name.bind fun _ _ => ?_
  refine (gives_optionalBetween _ _ (gives_inputValue limit)).bind fun _ _ => ?_
  refine (keeps_directives true limit).bind fun _ _ => (keeps_accept _).bind fun _ _ => ?_
  refine (keeps_keyword _).bind fun _ _ => ?_
  exact (gives_delimited _ keeps_location).bind fun _ _ => .pure trivial

theorem gives_keywordBody {word : String} {body : Parser Definition}
    (h : keywordBody? limit word = some body) : Gives body Definition.Writable := by
  unfold keywordBody? at h
  split at h <;> cases h
  · exact gives_schemaBody limit
  · exact (gives_scalarBody limit).bind fun _ hd => .pure hd
  · exact (gives_recordBody limit).bind fun _ hd => .pure hd
  · exact (gives_recordBody limit).bind fun _ hd => .pure hd
  · exact (gives_unionBody limit).bind fun _ hd => .pure hd
  · exact (gives_enumBody limit).bind fun _ hd => .pure hd
  · exact (gives_inputBody limit).bind fun _ hd => .pure hd
  · exact gives_directiveBody limit

theorem gives_adding (kind : Skipped) (added : Bool) : Gives (adding kind added) Definition.Writable :=
  .ite gives_unexpected (.pure trivial)

theorem gives_recordExtension (kind : Skipped) :
    Gives (recordExtension limit kind) Definition.Writable := by
  refine gives_name.bind fun _ _ => gives_interfaces.bind fun _ _ => ?_
  refine (keeps_directives true limit).bind fun _ _ => ?_
  exact (gives_optionalBetween _ _ (gives_field limit)).bind fun _ _ => gives_adding _ _

theorem gives_extensionBody {word : String} {body : Parser Definition}
    (h : extensionBody? limit word = some body) : Gives body Definition.Writable := by
  unfold extensionBody? at h
  split at h <;> cases h
  · refine (keeps_directives true limit).bind fun _ _ => ?_
    exact (gives_optionalBetween _ _ keeps_rootOperation).bind fun _ _ => gives_adding _ _
  · exact gives_name.bind fun _ _ => (keeps_directives true limit).bind fun _ _ => gives_adding _ _
  · exact gives_recordExtension limit _
  · exact gives_recordExtension limit _
  · refine gives_name.bind fun _ _ => (keeps_directives true limit).bind fun _ _ => ?_
    exact gives_unionMembers.bind fun _ _ => gives_adding _ _
  · refine gives_name.bind fun _ _ => (keeps_directives true limit).bind fun _ _ => ?_
    exact (gives_optionalBetween _ _ (gives_enumValue limit)).bind fun _ _ => gives_adding _ _
  · refine gives_name.bind fun _ _ => (keeps_directives true limit).bind fun _ _ => ?_
    exact (gives_optionalBetween _ _ (gives_inputValue limit)).bind fun _ _ => gives_adding _ _
  · refine (keeps_expect _).bind fun _ _ => gives_name.bind fun _ _ => ?_
    exact (keeps_directives true limit).bind fun _ _ => gives_adding _ _

theorem gives_extended : Gives (extended limit) Definition.Writable := by
  refine gives_following.bind fun keyword _ => ?_
  split
  · split
    · next hbody =>
      refine keeps_advance.bind fun _ _ => keeps_advance.bind fun _ _ => ?_
      exact gives_extensionBody limit hbody
    · exact gives_fail _ _
  · exact gives_fail _ _

theorem gives_operation : Gives (operation limit) Definition.Writable := by
  refine (keeps_nextIs _).bind fun _ _ => .ite ?_ ?_
  · exact (keeps_selectionSet limit).bind fun _ _ => .pure trivial
  have htail : Gives (do
      let _ ← optionalBetween .openParen .closeParen (variableDefinition limit)
      let _ ← directives false limit
      selectionSet limit
      return Definition.skipped .operation) Definition.Writable :=
    (gives_optionalBetween _ _ (keeps_variableDefinition limit)).bind fun _ _ =>
      (keeps_directives false limit).bind fun _ _ => (keeps_selectionSet limit).bind fun _ _ =>
        .pure trivial
  refine keeps_description.bind fun _ _ => keeps_operationWord.bind fun _ _ =>
    gives_peek.bind fun _ _ => ?_
  split
  · exact keeps_advance.bind fun _ _ => htail
  · exact htail

theorem gives_fragment : Gives (fragment limit) Definition.Writable := by
  refine keeps_description.bind fun _ _ => (keeps_keyword _).bind fun _ _ => ?_
  refine keeps_fragmentName.bind fun _ _ => (keeps_keyword _).bind fun _ _ => ?_
  exact gives_name.bind fun _ _ => (keeps_directives false limit).bind fun _ _ =>
    (keeps_selectionSet limit).bind fun _ _ => .pure trivial

theorem gives_definition : Gives (definition limit) Definition.Writable := by
  refine Gives.bind (P := fun _ => True) ?_ fun described _ => keeps_here.bind fun start _ => .ite
    (gives_following.bind fun keyword _ => ?_) (gives_get.bind fun keyword _ => ?_)
  · refine gives_peek.bind fun _ _ => ?_
    split <;> exact .pure trivial
  all_goals
    beta_reduce
    split
    · exact .ite ((gives_fail (P := fun _ => True) _ _).bind fun _ _ => gives_operation limit)
        (gives_operation limit)
    · split
      · next hbody =>
        refine keeps_description.bind fun _ _ => keeps_advance.bind fun _ _ => ?_
        exact gives_keywordBody limit hbody
      · exact .ite (gives_operation limit) (.ite (gives_fragment limit)
          (.ite (gives_fail _ _) (.ite (gives_extended limit) (gives_fail _ _))))
    · exact gives_fail _ _

/-- One definition after another: what follows a definition is a shorter list of such tokens. -/
theorem writable_of_definitions {ts : Tokens} {ds : List Definition} (hts : ts.Named)
    (h : definitions limit ts = .ok ds) : ∀ d ∈ ds, d.Writable := by
  induction hn : ts.size using Nat.strong_induction_on generalizing ts ds with
  | _ n ih =>
    rw [definitions] at h
    obtain ⟨⟨first, rest⟩, hfirst, h⟩ := exists_of_bind_eq_ok h
    obtain ⟨hd, hrest⟩ := gives_definition limit ts first rest hts hfirst
    dsimp only at h
    split at h
    · cases h
      simpa using hd
    split at h
    · next hlt =>
      obtain ⟨later, hlater, h⟩ := exists_of_bind_eq_ok h
      cases h
      exact List.forall_mem_cons.mpr ⟨hd, ih rest.size (hn ▸ hlt) hrest hlater rfl⟩
    · cases h
      simpa using hd

end Documents

end Parser

/-- Everything that is read from a text can be written in one. -/
theorem writable_of_readWithin {limit : Nat} {text : String} {ds : List Definition}
    (h : readWithin limit text = .ok ds) : ∀ d ∈ ds, d.Writable := by
  obtain ⟨ts, hts, h⟩ := exists_of_bind_eq_ok h
  obtain rfl := Parser.eq_of_readable hts
  exact Parser.writable_of_definitions limit (Tokens.named_scan _ _) h

end Sdl

namespace Declaration.Writable

variable {d : Declaration}

theorem isName (h : d.Writable) : Sdl.IsName d.name := by
  cases d with
  | scalar => exact h
  | object | interface | input | union | enum => exact h.1

theorem of_mem_fields (h : d.Writable) {f : Field} (hf : f ∈ d.fields) : f.Writable := by
  cases d with
  | object d | interface d => exact h.2.1 f hf
  | input d => exact h.2 f hf
  | union | enum | scalar => cases hf

end Declaration.Writable

namespace Declarations

/-- Nothing is read from a text that a text could not hold, apart from the kinds that are looked up. -/
theorem exists_writable_of_ofTextWithin {limit : Nat} {text : String} {ds : Declarations}
    (h : ofTextWithin limit text = .ok ds) :
    ∃ written : Declarations, (∀ d ∈ written.all, d.Writable) ∧ ds = written.resolveKinds := by
  obtain ⟨definitions, hread, h⟩ := Sdl.exists_of_bind_eq_ok h
  refine ⟨ofList (definitions.filterMap declared?), fun d hd => ?_, (Except.ok.inj h).symm⟩
  rw [mem_all_iff, category_ofList] at hd
  obtain ⟨x, hx, hdeclared⟩ := List.mem_filterMap.mp (List.mem_of_mem_filter hd)
  have hwritable : x.Writable := Sdl.writable_of_readWithin hread x hx
  cases x with
  | declared d' =>
    obtain rfl := Option.some.inj hdeclared
    exact hwritable
  | skipped => cases hdeclared

end Declarations

end CheckedModels
