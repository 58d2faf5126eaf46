import CheckedModels.Conversion.Wording
import CheckedModels.Registry.Build
import CheckedModels.Session.Validate

/-! Descriptors that are built, defined, sealed and used, in any order. -/
namespace CheckedModels

/-- What the key of a definition begins with. -/
def Definition.label : Definition → String
  | .basic b => b.name
  | .enumeration e => e.name
  | .model m => m.name
  | .union _ => "union"

/-- A new model gets its properties like any other, and so it may be refused. -/
def Definition.approve : Definition → Except DefinitionError Unit
  | .model m => do let _ ← Model.define ⟨m.name, [], false⟩ m.properties
  | _ => return ()

namespace Registry

/-- What `create` answers when validation comes to this. -/
def conclude (r : Registry) (d : Descriptor) (v : Value) : Outcome → Except CreateError Value
  | .ok made => .ok made
  | .error (.rejected issues) =>
    match r.typeName? d with
    | some name => .error (.conversion ⟨v, name, issues⟩)
    | none => .error (.fault .endless)
  | .error (.broken fault) => .error (.fault fault)

/-- The same answer in a given wording. -/
def told (r : Registry) (w : Wording) (d : Descriptor) :
    Except CreateError Value → Except CreateError Value
  | .error (.conversion e) => .error (.conversion { e with issues := r.rewordAll w d e.issues })
  | made => made

end Registry

/-- What `isValid` answers when validation comes to this. -/
def Outcome.verdict : Outcome → Except Fault Bool
  | .ok _ => .ok true
  | .error (.rejected _) => .ok false
  | .error (.broken fault) => .error fault

structure Session where
  registry : Registry := {}
  caches : Caches := {}
  wording : Wording := {}
deriving Inhabited

/-- What is asked of descriptors. Models and unions are referred to by key. -/
inductive Call where
  | build (d : Definition)
  | define (key : String) (properties : Entries Descriptor)
  | defineUnion (key : String) (alternatives : List Descriptor)
  | sealUp (key : String)
  | create (d : Descriptor) (v : Value)
  | isValid (d : Descriptor) (v : Value)

inductive Reply where
  | introduced (d : Descriptor)
  | done
  | refused (e : DefinitionError)
  | inapplicable
  | created (made : Except CreateError Value)
  | valid (verdict : Except Fault Bool)

namespace Session

def build (s : Session) (d : Definition) : Reply × Session :=
  match d.approve with
  | .ok () =>
    let (r, made) := s.registry.introduce d.label d
    (.introduced made, { s with registry := r })
  | .error e => (.refused e, s)

def define (s : Session) (key : String) (properties : Entries Descriptor) : Reply × Session :=
  match s.registry.find? key with
  | some (.model m) =>
    match s.registry.defineModel key m properties with
    | .ok r => (.done, { s with registry := r })
    | .error e => (.refused e, s)
  | _ => (.inapplicable, s)

def defineUnion (s : Session) (key : String) (alternatives : List Descriptor) : Reply × Session :=
  match s.registry.find? key with
  | some (.union u) =>
    match s.registry.defineUnion key u alternatives with
    | .ok r => (.done, { s with registry := r })
    | .error e => (.refused e, s)
  | _ => (.inapplicable, s)

def sealUp (s : Session) (key : String) : Reply × Session :=
  match s.registry.find? key with
  | some (.model m) => (.done, { s with registry := s.registry.replace key (.model m.seal) })
  | some (.union u) => (.done, { s with registry := s.registry.replace key (.union u.seal) })
  | _ => (.inapplicable, s)

/-- What is made on the way is kept, however the validation ends. -/
def check (s : Session) (d : Descriptor) (v : Value) : Outcome × Session :=
  let (made, caches) := (s.registry.checkCached d v).go s.caches
  (made, { s with caches, wording := s.registry.wording s.wording d v })

def create (s : Session) (d : Descriptor) (v : Value) : Except CreateError Value × Session :=
  let given := s.registry.input d v
  let (made, s) := s.check d given
  (s.registry.told s.wording d (s.registry.conclude d given made), s)

def isValid (s : Session) (d : Descriptor) (v : Value) : Except Fault Bool × Session :=
  let (made, s) := s.check d v
  (made.verdict, s)

def step (s : Session) : Call → Reply × Session
  | .build d => s.build d
  | .define key properties => s.define key properties
  | .defineUnion key alternatives => s.defineUnion key alternatives
  | .sealUp key => s.sealUp key
  | .create d v => (s.create d v).map .created id
  | .isValid d v => (s.isValid d v).map .valid id

def after (s : Session) (calls : List Call) : Session := calls.foldl (fun s c => (s.step c).2) s

/-- The calls with what each of them came to. -/
def history (s : Session) : List Call → List (Call × Reply)
  | [] => []
  | call :: rest => (call, (s.step call).1) :: (s.step call).2.history rest

/-- The definitions as they are, built anew. The wording is no part of them: new definitions find it as
the old ones left it. -/
def fresh (s : Session) : Session :=
  after { wording := s.wording } (s.registry.entries.map fun e => .build e.2)

end Session

end CheckedModels
