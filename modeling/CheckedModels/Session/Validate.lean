import CheckedModels.Conversion.Validate
import CheckedModels.Session.Cached

/-! Validation as it is carried out: classes and validators are made on first use and kept. -/
namespace CheckedModels

/-- To a union that tries a model, a name that cannot be used is an issue. -/
def Outcome.nameAsIssue {α : Type} : Except Failure α → Except Failure α
  | .error (.broken .nullInName) => reject .nullInName
  | made => made

namespace Registry

/-- The class of a model, which is made once, from the properties that the model has then. -/
def classOf (r : Registry) (key : String) : Cached RecordClass :=
  match r.model? key with
  | none => throw (.broken (.unregistered key))
  | some m =>
    if !m.isSealed then throw (.broken (.unsealed m.name))
    else do
      match (← get).classes.lookup key with
      | some made => return made
      | none =>
        if m.name.contains '\x00' then throw (.broken .nullInName)
        else
          modify fun c => { c with classes := (key, m.toClass) :: c.classes }
          return m.toClass

/-- The validator of a descriptor, which is made once. Once it is made, the name of the descriptor does
not matter. -/
def validatorOf (r : Registry) (d : Descriptor) : Cached Validator := do
  match (← get).validators.lookup d with
  | some made => return made
  | none =>
    let made ← match d, r.record? d with
      | .named key, some _ => pure (.record key (← r.classOf key))
      | d, _ => if r.nameEnds d then pure (.layers d) else throw (.broken .endless)
    modify fun c => { c with validators := (d, made) :: c.validators }
    return made

def isInstanceOfCached (r : Registry) (v : Value) : List Descriptor → Cached Bool
  | [] => return false
  | d :: rest =>
    match d, r.record? d with
    | .named key, some _ => do
      let _ ← Cached.via Outcome.nameAsIssue (r.classOf key)
      match v with
      | .instance _ model _ _ _ => if model = key then return true else r.isInstanceOfCached v rest
      | _ => r.isInstanceOfCached v rest
    | _, _ => r.isInstanceOfCached v rest

/-- As `validate`. A model that is part of something else has its class looked up, and only the
alternatives of unions their validators. -/
def validateCached (r : Registry) (unions : Nat) (s : Validator) (v : Value) : Cached Value :=
  match s with
  | .record key c =>
    match v with
    | .dict entries =>
      let parts := c.fields.map fun f =>
        (Step.key f.key,
          match _h : Value.under? entries f.key with
          | some x => Cached.via (r.embed f.type) (validateCached r r.entries.length (.layers f.type) x)
          | none => Cached.of f.omitted)
      let strays := (c.strays entries).map fun p => (p.1, Cached.of p.2)
      Cached.via (fun parts => c.build key <$> RecordClass.settle entries parts)
        (Cached.gather (parts ++ strays))
    | .instance _ model _ _ _ =>
      Cached.of (if model = key then .ok v else Outcome.reject (.notModel c.name))
    | _ => Cached.of (Outcome.reject (.notModel c.name))
  | .layers (.basic b) => Cached.of (b.validate v)
  | .layers (.maybeNull inner) =>
    match v with
    | .null => return .null
    | v => Cached.via (r.embed inner) (validateCached r unions (.layers inner) v)
  | .layers (.array item) =>
    match _h : v.items? with
    | some items =>
      let parts := items.attach.mapIdx fun i x =>
        (Step.index i, Cached.via (r.embed item) (validateCached r r.entries.length (.layers item) x.1))
      Cached.via (Value.list <$> ·) (Cached.gather parts)
    | none => Cached.of (Outcome.reject .notList)
  | .layers (.map item) =>
    match r.record? item with
    | none => Cached.of (Outcome.broken .notRecord)
    | some m =>
      match v with
      | .dict entries =>
        let parts := entries.attach.map fun e =>
          (some e.1.1,
            Cached.via (r.embed item) (validateCached r r.entries.length (.layers item) e.1.2))
        Cached.via (Collection.toDict <$> ·) (Cached.index m.identifierName? [] parts)
      | v =>
        match _h : v.items? with
        | some items =>
          if m.identifier?.isNone then Cached.of (Outcome.reject (.noIdentifier m.name))
          else
            let parts := items.attach.map fun x =>
              (none, Cached.via (r.embed item) (validateCached r r.entries.length (.layers item) x.1))
            Cached.via (Collection.toDict <$> ·) (Cached.index m.identifierName? [] parts)
        | none => Cached.of (Outcome.reject .notCollection)
  | .layers (.named key) =>
    match r.find? key with
    | none => Cached.of (Outcome.broken (.unregistered key))
    | some (.basic b) => Cached.of (b.validate v)
    | some (.enumeration e) => Cached.of (e.validate v)
    | some (.model _) => do validateCached r unions (.record key (← r.classOf key)) v
    | some (.union u) => do
      if ← r.isInstanceOfCached v u.alternatives then return v
      else
        match unions with
        | 0 => Cached.of (Outcome.broken .endless)
        | unions + 1 =>
          let last : Outcome := match r.typeName? (.named key) with
            | some name => Outcome.reject (.noAlternative name)
            | none => Outcome.broken .endless
          Cached.first last (u.alternatives.map fun a => do
            validateCached r unions (← r.validatorOf a) v)
termination_by (v, unions, s.rank)
decreasing_by
  · exact .left _ _ (Nat.lt_trans (Value.sizeOf_under _h) (by simp))
  · exact .right _ (.right _ (by simp [Validator.rank]))
  · exact .left _ _ (Value.sizeOf_item _h x.2)
  · exact .left _ _ (Value.sizeOf_value e.2)
  · exact .left _ _ (Value.sizeOf_item _h x.2)
  · exact .right _ (.right _ (by simp [Validator.rank]))
  · exact .right _ (.left _ _ (Nat.lt_succ_self _))

def checkCached (r : Registry) (d : Descriptor) (v : Value) : Cached Value := do
  r.validateCached r.entries.length (← r.validatorOf d) v

end Registry

end CheckedModels
