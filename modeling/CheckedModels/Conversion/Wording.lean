import CheckedModels.Conversion.Create

/-! The order in which a rejected value is told the members of an enumeration. Right below a layer of
one kind, enumerations with the same members are one, and the first that is used gives the order. -/
namespace CheckedModels

inductive Layer where
  | maybeNull
  | array
deriving Repr, DecidableEq

/-- An enumeration right below a layer. -/
structure MemberUse where
  layer : Layer
  members : List String
deriving Repr, DecidableEq

/-- Whether the layers are the same, and the members too in some order. -/
def MemberUse.agrees (a b : MemberUse) : Bool :=
  a.layer == b.layer && a.members.all b.members.contains && b.members.all a.members.contains

/-- The uses so far, of which no two agree. -/
structure Wording where
  uses : List MemberUse := []
deriving Repr, DecidableEq, Inhabited

namespace Wording

def known? (w : Wording) (u : MemberUse) : Option MemberUse := w.uses.find? u.agrees

def note (w : Wording) (u : MemberUse) : Wording :=
  if (w.known? u).isSome then w else ⟨w.uses ++ [u]⟩

def noteAll (w : Wording) (uses : List MemberUse) : Wording := uses.foldl note w

/-- The members in the order in which they are told. -/
def members (w : Wording) (u : MemberUse) : List String := ((w.known? u).getD u).members

end Wording

namespace Registry

/-- The enumeration inside all layers of a descriptor, with the innermost of them. -/
def memberUse? (r : Registry) (layer : Option Layer) : Descriptor → Option MemberUse
  | .maybeNull inner => r.memberUse? (some .maybeNull) inner
  | .array item => r.memberUse? (some .array) item
  | .named key =>
    match layer, r.find? key with
    | some layer, some (.enumeration e) => some ⟨layer, e.values⟩
    | _, _ => none
  | _ => none

/-- What is used before a value is looked at. A model uses all its properties once it is sealed. -/
def ownUses (r : Registry) (d : Descriptor) : List MemberUse :=
  match r.record? d with
  | some m => if m.isSealed then m.properties.filterMap fun p => r.memberUse? none p.2 else []
  | none => (r.memberUse? none d).toList

/-- What is used until one of the parts ends the validation. -/
def usesUntil {ε α : Type} (ends : Except ε α → Bool) :
    List (Except ε α × List MemberUse) → List MemberUse
  | [] => []
  | (part, uses) :: rest => if ends part then uses else uses ++ usesUntil ends rest

def isBroken : Outcome → Bool
  | .error (.broken _) => true
  | _ => false

def isRejected : Outcome → Bool
  | .error (.rejected _) => true
  | _ => false

/-- What is used to tell whether a value is an instance of one of the models. -/
def instanceUses (r : Registry) (v : Value) (alternatives : List Descriptor) : List MemberUse :=
  let parts := alternatives.map fun d =>
    (r.isInstanceOf v [d], if (r.record? d).isSome then r.ownUses d else [])
  usesUntil (fun
    | .ok found => found
    | .error _ => true) parts

/-- What is used until an entry of a collection fails. -/
def entryUses (property : Option String) (done : List (Text × Value)) :
    List (Option Scalar × Outcome × List MemberUse) → List MemberUse
  | [] => []
  | (given, part, uses) :: rest =>
    uses ++ match Collection.index property done [(given, part)] with
      | .ok done => entryUses property done rest
      | .error _ => []

/-- Without a finite name no value is looked at. -/
def usesOnItsOwn (r : Registry) (d : Descriptor) (uses : List MemberUse) : List MemberUse :=
  if r.nameEnds d then uses else r.ownUses d

/-- What is used to validate a value, in that order. -/
def uses (r : Registry) (unions : Nat) (d : Descriptor) (v : Value) : List MemberUse :=
  r.ownUses d ++
  match d with
  | .basic _ => []
  | .maybeNull inner =>
    match v with
    | .null => []
    | v => uses r unions inner v
  | .array item =>
    match _h : v.items? with
    | some items =>
      usesUntil isBroken (items.attach.map fun x =>
        (r.embed item (r.check item x.1), uses r r.entries.length item x.1))
    | none => []
  | .map item =>
    match r.record? item with
    | none => []
    | some m =>
      match v with
      | .dict entries =>
        entryUses m.identifierName? [] (entries.attach.map fun e =>
          (some e.1.1, r.embed item (r.check item e.1.2), uses r r.entries.length item e.1.2))
      | v =>
        match _h : v.items? with
        | some items =>
          if m.identifier?.isNone then []
          else
            entryUses m.identifierName? [] (items.attach.map fun x =>
              (none, r.embed item (r.check item x.1), uses r r.entries.length item x.1))
        | none => []
  | .named key =>
    match r.find? key, v with
    | some (.model m), .dict entries =>
      if m.fault?.isSome then []
      else
        usesUntil isBroken (m.toClass.fields.map fun f =>
          match _h : Value.under? entries f.key with
          | some x => (r.embed f.type (r.check f.type x), uses r r.entries.length f.type x)
          | none => (f.omitted, []))
    | some (.union u), v =>
      r.instanceUses v u.alternatives ++
      match r.isInstanceOf v u.alternatives, unions with
      | .ok false, unions + 1 =>
        usesUntil (fun part => !isRejected part)
          (u.alternatives.map fun a =>
            (r.onItsOwn a (validate r unions a v), r.usesOnItsOwn a (uses r unions a v)))
      | _, _ => []
    | _, _ => []
termination_by (v, unions, d)
decreasing_by
  · exact .right _ (.right _ (by simp))
  · exact .left _ _ (Value.sizeOf_item _h x.2)
  · exact .left _ _ (Value.sizeOf_value e.2)
  · exact .left _ _ (Value.sizeOf_item _h x.2)
  · exact .left _ _ (Nat.lt_trans (Value.sizeOf_under _h) (by simp))
  · exact .right _ (.left _ _ (Nat.lt_succ_self _))

/-- The wording after a value was validated. -/
def wording (r : Registry) (w : Wording) (d : Descriptor) (v : Value) : Wording :=
  w.noteAll (r.usesOnItsOwn d (r.uses r.entries.length d v))

/-- What the start of a location leads to: a property, in case of a model. -/
def site (r : Registry) (d : Descriptor) : List Step → Descriptor
  | .key name :: _ =>
    match r.record? d with
    | some m => (m.properties.lookup name).getD d
    | none => d
  | _ => d

/-- The model whose issues are reported together. -/
def reporting (d : Descriptor) : Descriptor :=
  match d.core with
  | .map item => item
  | d => d

mutual

/-- An issue that names members in the order in which they are told. -/
def reword (r : Registry) (w : Wording) (d : Descriptor) : Issue → Issue
  | .plain location (.notMember members) =>
    .plain location (.notMember
      (((r.memberUse? none (r.site d location)).map w.members).getD members))
  | .plain location cause => .plain location cause
  | .model location name issues =>
    .model location name (r.rewordAll w (reporting (r.site d location)) issues)

def rewordAll (r : Registry) (w : Wording) (d : Descriptor) : List Issue → List Issue
  | [] => []
  | issue :: rest => r.reword w d issue :: r.rewordAll w d rest

end

def createWorded (r : Registry) (w : Wording) (d : Descriptor) (v : Value) :
    Except CreateError Value × Wording :=
  let w := r.wording w d (r.input d v)
  match r.create d v with
  | .error (.conversion e) => (.error (.conversion { e with issues := r.rewordAll w d e.issues }), w)
  | made => (made, w)

end Registry

end CheckedModels
