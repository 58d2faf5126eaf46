import CheckedModels.Yaml.Lexer
import CheckedModels.Yaml.Node

/-! From tokens to the one document that a text may hold. -/
namespace CheckedModels.Yaml

/-- What is known of the document so far: its nodes, the meaning of tag handles, and the nodes that
have anchors. Collections may still be nested in so many `levels`. -/
structure Reading where
  stream : TokenStream
  graph : Graph := {}
  handles : Entries String := [("!", "!"), ("!!", Tag.standard)]
  anchors : Entries NodeId := []
  levels : Nat := 488

abbrev Parser := StateT Reading (Except Failure)

namespace Parser

variable {α : Type}

def fail : Parser α := throw .malformed

/-- The next token, once it is known that there is one. -/
def peek : Parser (Option Token) := do
  match (← get).stream with
  | ⟨t :: _, _⟩ => return some t
  | ⟨[], none⟩ => return none
  | ⟨[], some f⟩ => throw f

def advance : Parser Unit :=
  modify fun s => { s with stream := { s.stream with tokens := s.stream.tokens.tail } }

def accept (t : Token) : Parser Bool := do
  if (← peek) = some t then
    advance
    return true
  return false

def expect (t : Token) : Parser Unit := do if !(← accept t) then fail

def nextIn (stops : List Token) : Parser Bool := return (← peek).any stops.contains

def anchor? : Parser (Option String) := do
  let some (.anchor name) ← peek | return none
  advance
  return some name

def tagMark? : Parser (Option TagMark) := do
  let some (.tag mark) ← peek | return none
  advance
  return some mark

def properties : Parser (Option String × Option TagMark) := do
  match ← anchor? with
  | some name => return (some name, ← tagMark?)
  | none => do
    match ← tagMark? with
    | some mark => return (← anchor?, some mark)
    | none => return (none, none)

/-- The name of a tag. One exclamation mark alone names none. -/
def tagName (mark : TagMark) : Parser (Option String) := do
  let name ← match mark.handle with
    | none => pure mark.suffix
    | some handle =>
      match (← get).handles.lookup handle with
      | some start => pure (start ++ mark.suffix)
      | none => fail
  return if name = "!" then none else some name

/-- A new node, under its anchor if it has one. -/
def add (anchor : Option String) (n : Node) : Parser NodeId :=
  modifyGet fun s =>
    let (id, graph) := s.graph.add n
    let anchors := match anchor with
      | some name => (name, id) :: s.anchors
      | none => s.anchors
    (id, { s with graph, anchors })

/-- What a node is, once it is complete. -/
def settle (id : NodeId) (n : Node) : Parser NodeId := do
  modify fun s => { s with graph := s.graph.set id n }
  return id

/-- A collection of what comes next, one level further in. -/
def collection (anchor : Option String) (make : List α → Node) (parts : Parser (List α)) :
    Parser NodeId := do
  let id ← add anchor (make [])
  match (← get).levels with
  | 0 => throw .tooDeep
  | levels + 1 =>
    modify fun s => { s with levels }
    let found ← parts
    modify fun s => { s with levels := levels + 1 }
    settle id (make found)

def empty : Parser NodeId := add none .empty

/-- Scalars without a tag are told by their looks, unless quotes or lines mark them as text. -/
def scalarTag (marked : Bool) (name : Option String) (text : Text) (plain : Bool) : Tag :=
  match name, text with
  | some name, _ => Tag.ofName name
  | none, .whole s => if plain || marked then Tag.ofPlain s else .str
  | none, .broken _ _ => .str

def collectionTag (name : Option String) (default : Tag) : Tag := (name.map Tag.ofName).getD default

mutual

/-- A node. Only where `block` holds may it be a block collection, and only where `loose` holds may it
be a sequence that is not indented. A collection is known by its anchor before it is complete. The
fuel is more than three times the number of tokens. -/
def node (block loose : Bool) : Nat → Parser NodeId
  | 0 => fail
  | fuel + 1 => do
    if let some (.reference name) ← peek then
      advance
      let some id := (← get).anchors.lookup name | fail
      return id
    let (anchor, mark) ← properties
    let name ← match mark with
      | some mark => tagName mark
      | none => pure none
    -- Nothing at all is a node only if it has an anchor or a tag.
    let nothing : Parser NodeId := do
      if anchor.isNone && mark.isNone then fail
      add anchor (.scalar (scalarTag true name "" true) "")
    let next ← peek
    if anchor.any ((← get).anchors.map Prod.fst).contains then fail
    let sequence := collection anchor (.sequence (collectionTag name .seq))
    let mapping := collection anchor (.mapping (collectionTag name .map))
    match next with
    | some (.scalar text plain) =>
      advance
      add anchor (.scalar (scalarTag mark.isSome name text plain) text)
    | some .flowSequenceStart =>
      advance
      sequence (flowItems true fuel)
    | some .flowMappingStart =>
      advance
      mapping (flowEntries true fuel)
    | some .blockEntry => if loose then sequence (looseItems fuel) else nothing
    | some .blockSequenceStart =>
      if block then
        advance
        sequence (blockItems fuel)
      else nothing
    | some .blockMappingStart =>
      if block then
        advance
        mapping (blockEntries fuel)
      else nothing
    | _ => nothing

/-- A node, or nothing before one of the given tokens. -/
def nodeUnless (stops : List Token) (block loose : Bool) : Nat → Parser NodeId
  | 0 => fail
  | fuel + 1 => do
    if ← nextIn stops then empty else node block loose fuel

def blockItems : Nat → Parser (List NodeId)
  | 0 => fail
  | fuel + 1 => do
    if ← accept .blockEnd then return []
    expect .blockEntry
    let item ← nodeUnless [.blockEntry, .blockEnd] true false fuel
    return item :: (← blockItems fuel)

/-- The items of a sequence that is not indented. -/
def looseItems : Nat → Parser (List NodeId)
  | 0 => fail
  | fuel + 1 => do
    if !(← accept .blockEntry) then return []
    let item ← nodeUnless [.blockEntry, .key, .value, .blockEnd] true false fuel
    return item :: (← looseItems fuel)

def blockEntries : Nat → Parser (List (NodeId × NodeId))
  | 0 => fail
  | fuel + 1 => do
    if ← accept .blockEnd then return []
    expect .key
    let key ← nodeUnless [.key, .value, .blockEnd] true true fuel
    let item ←
      if ← accept .value then nodeUnless [.key, .value, .blockEnd] true true fuel
      else empty
    return (key, item) :: (← blockEntries fuel)

/-- The value after a key in a flow collection that ends with the given token. -/
def flowValue (stop : Token) : Nat → Parser NodeId
  | 0 => fail
  | fuel + 1 => do
    if ← accept .value then nodeUnless [.flowEntry, stop] false false fuel
    else empty

/-- The items of a flow sequence. An item with a colon is a mapping with one entry. -/
def flowItems (first : Bool) : Nat → Parser (List NodeId)
  | 0 => fail
  | fuel + 1 => do
    if ← accept .flowSequenceEnd then return []
    if !first then
      expect .flowEntry
      if ← accept .flowSequenceEnd then return []
    let item ←
      if ← accept .key then do
        collection none (.mapping .map) do
          let key ← nodeUnless [.value, .flowEntry, .flowSequenceEnd] false false fuel
          return [(key, ← flowValue .flowSequenceEnd fuel)]
      else node false false fuel
    return item :: (← flowItems false fuel)

/-- The entries of a flow mapping. A key without a colon has an empty value. -/
def flowEntries (first : Bool) : Nat → Parser (List (NodeId × NodeId))
  | 0 => fail
  | fuel + 1 => do
    if ← accept .flowMappingEnd then return []
    if !first then
      expect .flowEntry
      if ← accept .flowMappingEnd then return []
    let entry ←
      if ← accept .key then do
        let key ← nodeUnless [.value, .flowEntry, .flowMappingEnd] false false fuel
        pure (key, ← flowValue .flowMappingEnd fuel)
      else pure (← node false false fuel, ← empty)
    return entry :: (← flowEntries false fuel)

end

/-- The directives before a document, each of which may be given once. The fuel is the number of
tokens. -/
def directives (version : Bool) (own : Entries String) : Nat → Parser Unit
  | 0 => fail
  | fuel + 1 => do
    match ← peek with
    | some (.directive d) => do
      advance
      match d with
      | .version major =>
        if version || major ≠ 1 then fail
        directives true own fuel
      | .tag handle start =>
        if (own.lookup handle).isSome then fail
        directives version ((handle, start) :: own) fuel
      | .unknown => directives version own fuel
    | _ => modify fun s => { s with handles := own ++ s.handles }

def isDirective : Token → Bool
  | .directive _ => true
  | _ => false

def documentEnds : Nat → Parser Unit
  | 0 => return
  | fuel + 1 => do if ← accept .documentEnd then documentEnds fuel

def root : Parser (Option NodeId) := do
  let some first ← peek | return none
  let count := (← get).stream.tokens.length
  let fuel := 3 * count + 3
  let id ←
    if isDirective first || first = .documentStart then do
      directives false [] fuel
      expect .documentStart
      let next ← peek
      if next.all fun t => isDirective t || t = .documentStart || t = .documentEnd then empty
      else node true false fuel
    else node true false fuel
  documentEnds count
  if (← peek).isSome then fail
  return some id

end Parser

/-- The document of a text, unless it holds none: the graph and its root. -/
def Graph.ofText (text : String) : Except Failure (Option (Graph × NodeId)) := do
  let (root, s) ← Parser.root.run { stream := TokenStream.ofText text }
  return root.map fun id => (s.graph, id)

end CheckedModels.Yaml
