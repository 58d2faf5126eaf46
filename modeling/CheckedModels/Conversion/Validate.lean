import CheckedModels.Conversion.Collection
import CheckedModels.Conversion.RecordClass
import CheckedModels.Registry.TypeName

/-! Validating a value: the descriptor accepts it and makes a result, or says what is wrong. -/
namespace CheckedModels

def Basic.validate : Basic → Value → Outcome
  | .frozen, v => .ok v
  | .string, .scalar (.str s) | .identifier, .scalar (.str s) => .ok (.scalar (.str s))
  | .string, _ | .identifier, _ => Outcome.reject .notString
  | .number, .scalar (.int n) => .ok (.scalar (.int n))
  | .number, .scalar (.float x) => .ok (.scalar (.float x))
  | .number, _ =>
    .error (.rejected [.plain [.key "int"] .notInt, .plain [.key "float"] .notFloat])
  | .boolean, .scalar (.bool b) => .ok (.scalar (.bool b))
  | .boolean, _ => Outcome.reject .notBool

def Enumeration.validate (e : Enumeration) (v : Value) : Outcome :=
  if e.values.isEmpty then Outcome.reject (.noMembers e.name)
  else
    match v with
    | .str s => if s ∈ e.values then .ok (.str s) else Outcome.reject (.notMember e.values)
    | .scalar (.str _) => Outcome.reject .notText
    | _ => Outcome.reject (.notMember e.values)

namespace Registry

def record? (r : Registry) : Descriptor → Option Model
  | .named key => r.model? key
  | _ => none

/-- What a part of a larger value comes to. -/
def embed (r : Registry) (d : Descriptor) (part : Outcome) : Outcome :=
  match r.record? d with
  | some m => Outcome.embed m.name part
  | none => part

/-- Whether a value is an instance of one of the models. All models up to that one have to be fit for
use. -/
def isInstanceOf (r : Registry) (v : Value) : List Descriptor → Except Failure Bool
  | [] => .ok false
  | d :: rest =>
    match d, r.record? d with
    | .named key, some m =>
      match m.fault? with
      | some .nullInName => Outcome.reject .nullInName
      | some fault => Outcome.broken fault
      | none =>
        match v with
        | .instance _ model _ _ _ => if model = key then .ok true else isInstanceOf r v rest
        | _ => isInstanceOf r v rest
    | _, _ => isInstanceOf r v rest

/-- A descriptor on its own is validated by what is made of its printed form, so it needs a finite name.
As part of a larger one it does not. -/
def onItsOwn (r : Registry) (d : Descriptor) (part : Outcome) : Outcome :=
  if r.nameEnds d then part else Outcome.broken .endless

/-- `unions` bounds how many unions may be entered without a step into the value; a union that comes
back to itself exceeds every bound. -/
def validate (r : Registry) (unions : Nat) (d : Descriptor) (v : Value) : Outcome :=
  match d with
  | .basic b => b.validate v
  | .maybeNull inner =>
    match v with
    | .null => .ok .null
    | v => r.embed inner (validate r unions inner v)
  | .array item =>
    match _h : v.items? with
    | some items =>
      let parts := items.attach.mapIdx fun i x =>
        (Step.index i, r.embed item (validate r r.entries.length item x.1))
      .list <$> Outcome.gather parts
    | none => Outcome.reject .notList
  | .map item =>
    match r.record? item with
    | none => Outcome.broken .notRecord
    | some m =>
      match v with
      | .dict entries =>
        let parts := entries.attach.map fun e =>
          (some e.1.1, r.embed item (validate r r.entries.length item e.1.2))
        Collection.toDict <$> Collection.index m.identifierName? [] parts
      | v =>
        match _h : v.items? with
        | some items =>
          if m.identifier?.isNone then Outcome.reject (.noIdentifier m.name)
          else
            let parts := items.attach.map fun x =>
              (none, r.embed item (validate r r.entries.length item x.1))
            Collection.toDict <$> Collection.index m.identifierName? [] parts
        | none => Outcome.reject .notCollection
  | .named key =>
    match r.find? key with
    | none => Outcome.broken (.unregistered key)
    | some (.basic b) => b.validate v
    | some (.enumeration e) => e.validate v
    | some (.model m) =>
      match m.fault? with
      | some fault => Outcome.broken fault
      | none =>
        match v with
        | .dict entries =>
          let c := m.toClass
          let parts := c.fields.map fun f =>
            (Step.key f.key,
              match _h : Value.under? entries f.key with
              | some x => r.embed f.type (validate r r.entries.length f.type x)
              | none => f.omitted)
          c.build key <$> RecordClass.settle entries (Outcome.gather (parts ++ c.strays entries))
        | .instance _ model _ _ _ =>
          if model = key then .ok v else Outcome.reject (.notModel m.name)
        | _ => Outcome.reject (.notModel m.name)
    | some (.union u) =>
      match r.isInstanceOf v u.alternatives with
      | .error e => .error e
      | .ok true => .ok v
      | .ok false =>
        match unions with
        | 0 => Outcome.broken .endless
        | unions + 1 =>
          let last : Outcome := match r.typeName? (.named key) with
            | some name => Outcome.reject (.noAlternative name)
            | none => Outcome.broken .endless
          Outcome.first last (u.alternatives.map fun a => r.onItsOwn a (validate r unions a v))
termination_by (v, unions, d)
decreasing_by
  · exact .right _ (.right _ (by simp))
  · exact .left _ _ (Value.sizeOf_item _h x.2)
  · exact .left _ _ (Value.sizeOf_value e.2)
  · exact .left _ _ (Value.sizeOf_item _h x.2)
  · exact .left _ _ (Nat.lt_trans (Value.sizeOf_under _h) (by simp))
  · exact .right _ (.left _ _ (Nat.lt_succ_self _))

end Registry

end CheckedModels
