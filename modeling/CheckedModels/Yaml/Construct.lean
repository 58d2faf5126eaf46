import CheckedModels.Yaml.Binary
import CheckedModels.Yaml.Data
import CheckedModels.Yaml.Document
import CheckedModels.Yaml.Number

/-! What a document stands for. Collections are known by number before they are filled, so that they
may hold themselves, and they are filled in the order in which they were found. -/
namespace CheckedModels.Yaml

/-- What a node comes to. -/
inductive Part where
  | atom (a : Atom)
  | collection (number : Nat)
deriving Inhabited

inductive Collection where
  | list (items : List Part)
  | dict (entries : List (Atom × Part))
  | set (members : List Atom)
deriving Inhabited

/-- The graph changes while it is looked at: what a mapping takes from others becomes its own.
`waiting` are the nodes whose collections are not filled yet, last first, and `depth` is more than
mappings can take from each other in a row. -/
structure Construction where
  graph : Graph
  depth : Nat
  parts : Array (Option Part)
  collections : Array Collection := #[]
  waiting : List (NodeId × Nat) := []

abbrev Construct := StateT Construction (Except Failure)

namespace Graph

/-- The text of a scalar, or of the entry that a mapping names as its own value. The fuel is more than
the number of nodes. -/
def text (g : Graph) (id : NodeId) : Nat → Except Failure Text
  | 0 => .error .endless
  | fuel + 1 =>
    match g.node id with
    | .scalar _ text => .ok text
    | .mapping _ entries =>
      match entries.find? fun e => g.tag e.1 = .self with
      | some (_, value) => g.text value fuel
      | none => .error .malformed
    | .sequence _ _ => .error .malformed

/-- The source of the first entry that takes from others, and all other entries. -/
def splitMerge? (g : Graph) :
    List (NodeId × NodeId) → Option (NodeId × List (NodeId × NodeId))
  | [] => none
  | entry :: rest =>
    if g.tag entry.1 = .merge then some (entry.2, rest)
    else (g.splitMerge? rest).map fun (source, others) => (source, entry :: others)

/-- An equals sign that is a key is a text from now on. -/
def settleKeys (g : Graph) (entries : List (NodeId × NodeId)) : Graph :=
  entries.foldl (fun g e => if g.tag e.1 = .self then g.set e.1 ((g.node e.1).withTag .str) else g) g

end Graph

namespace Scalar

def truth? (text : Text) : Option Bool :=
  let isWord (word : String) : Bool := Text.lower text.codes == (word : Text).codes
  if Tag.truthWords.any isWord then some true
  else if Tag.falseWords.any isWord then some false
  else none

def moment (text : Text) : Except Failure Moment :=
  let found := match text with
    | .whole s => Moment.ofChars? (Tag.stem s.toList)
    | .broken _ _ => none
  match found with
  | none => .error .notMoment
  | some m =>
    match m.complaint? with
    | some complaint => .error (.badValue complaint)
    | none => .ok m

def bytes (text : Text) : Except Failure (List Nat) :=
  match text with
  | .whole s => (bytesOfText? s).elim (.error .malformed) .ok
  | .broken _ _ => .error .malformed

/-- What the text of a node under a tag stands for. -/
def atom (id : NodeId) (tag : Tag) (text : Text) : Except Failure Atom :=
  match tag with
  | .null => return .scalar .null
  | .bool => (truth? text).elim (.error .notTruth) fun b => .ok (.scalar (.bool b))
  | .int => return .scalar (.int (← intOfText text))
  | .float => return match ← floatOfText text with
    | some x => if x.isNaN then .notNumber (some id) else .scalar (.float x)
    | none => .notNumber none
  | .binary => return .bytes (← bytes text)
  | .moment => return .moment (← moment text)
  | .str => return .scalar (.str text)
  | _ => .error .malformed

end Scalar

namespace Construct

def node (id : NodeId) : Construct Node := return (← get).graph.node id

def setNode (id : NodeId) (n : Node) : Construct Unit :=
  modify fun s => { s with graph := s.graph.set id n }

/-- A collection of a node, which is filled later. -/
def reserve (id : NodeId) (c : Collection) : Construct Part :=
  modifyGet fun s =>
    let number := s.collections.size
    (.collection number,
      { s with collections := s.collections.push c, waiting := (id, number) :: s.waiting })

def addList (items : List Part) : Construct Part :=
  modifyGet fun s =>
    (.collection s.collections.size, { s with collections := s.collections.push (.list items) })

def fill (number : Nat) (c : Collection) : Construct Unit :=
  modify fun s => { s with collections := s.collections.setIfInBounds number c }

/-- What a node comes to that is looked at for the first time. A date has to be a scalar itself. -/
def fresh (id : NodeId) : Construct Part := do
  let s ← get
  match s.graph.tag id with
  | .seq | .pairs => reserve id (.list [])
  | .map => reserve id (.dict [])
  | .set => reserve id (.set [])
  | .merge | .self | .unknown => throw .malformed
  | tag => do
    let text ← s.graph.text id (s.graph.nodes.size + 1)
    match tag, s.graph.node id with
    | .moment, .mapping _ _ => throw .momentOfParts
    | _, _ => return .atom (← Scalar.atom id tag text)

/-- What a node comes to; every node is looked at once. -/
def part (id : NodeId) : Construct Part := do
  match ((← get).parts[id]?).join with
  | some part => return part
  | none =>
    let made ← fresh id
    modify fun s => { s with parts := s.parts.setIfInBounds id (some made) }
    return made

/-- Gives a mapping what it takes from others, before its own entries. From several mappings it takes
the last first, so that the first wins. -/
def merge (id : NodeId) (taken : List (NodeId × NodeId)) : Nat → Construct Unit
  | 0 => throw .malformed
  | fuel + 1 => do
    let .mapping tag entries ← node id | throw .malformed
    modify fun s => { s with graph := s.graph.settleKeys entries }
    match (← get).graph.splitMerge? entries with
    | none => setNode id (.mapping tag (taken ++ entries))
    | some (source, others) =>
      setNode id (.mapping tag others)
      let entriesOf (source : NodeId) : Construct (List (NodeId × NodeId)) := do
        merge source [] fuel
        match ← node source with
        | .mapping _ entries => return entries
        | _ => throw .malformed
      let more ← match ← node source with
        | .sequence _ items => do
          let groups ← items.mapM entriesOf
          pure groups.reverse.flatten
        | _ => entriesOf source
      merge id (taken ++ more) fuel

/-- Keys have no parts. -/
def key (id : NodeId) : Construct Atom := do
  match ← part id with
  | .atom a => return a
  | .collection _ => throw .malformed

def entry (e : NodeId × NodeId) : Construct (Atom × Part) := do
  let key ← key e.1
  return (key, ← part e.2)

/-- The entries of a mapping. The last value of a repeated key counts. -/
def entries (id : NodeId) : Construct (List (Atom × Part)) := do
  let .mapping _ _ ← node id | throw .malformed
  merge id [] (← get).depth
  let .mapping _ entries ← node id | throw .malformed
  return Entries.ofPairsBy Atom.sameKey (← entries.mapM entry)

def items (id : NodeId) : Construct (List NodeId) := do
  match ← node id with
  | .sequence _ items => return items
  | _ => throw .malformed

def pair (id : NodeId) : Construct Part := do
  match ← node id with
  | .mapping _ [(key, value)] =>
    let key ← part key
    addList [key, ← part value]
  | _ => throw .malformed

/-- Fills the collection of a node. The members of a set are its keys. -/
def complete (id : NodeId) (number : Nat) : Construct Unit := do
  match (← get).graph.tag id with
  | .seq => fill number (.list (← (← items id).mapM part))
  | .pairs => fill number (.list (← (← items id).mapM pair))
  | .set => fill number (.set ((← entries id).map Prod.fst))
  | _ => fill number (.dict (← entries id))

/-- Fills the collections that wait, and those that are found on the way after them. The fuel is more
than the number of nodes. -/
def completeAll : Nat → Construct Unit
  | 0 => return
  | fuel + 1 => do
    let waiting := (← get).waiting
    if !waiting.isEmpty then
      modify ({ · with waiting := [] })
      waiting.reverse.forM fun (id, number) => complete id number
      completeAll fuel

end Construct

/-- A part to a depth of mappings. What lies deeper, or in lists, is left out. -/
def Construction.data (s : Construction) : Nat → Part → Data
  | _, .atom a => .atom a
  | depth, .collection number =>
    match s.collections[number]?, depth with
    | some (.list items), _ => .list (items.map fun _ => .null)
    | some (.set members), _ => .set members
    | some (.dict entries), depth + 1 => .dict (entries.map fun e => (e.1, s.data depth e.2))
    | some (.dict _), 0 => .dict []
    | none, _ => .null

/-- What a text stands for, to a depth of mappings; nothing, if it holds no document. -/
def Data.ofText (depth : Nat) (text : String) : Except Failure Data := do
  match ← Graph.ofText text with
  | none => return .null
  | some (graph, root) =>
    let size := graph.nodes.size
    let start : Construction :=
      { graph, depth := 2 * graph.entryCount + 3, parts := Array.replicate size none }
    let build : Construct Part := do
      let part ← Construct.part root
      Construct.completeAll (size + 1)
      return part
    let (part, s) ← build.run start
    return s.data depth part

end CheckedModels.Yaml
