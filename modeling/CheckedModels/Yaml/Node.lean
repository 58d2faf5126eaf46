import CheckedModels.Text.Basic
import CheckedModels.Yaml.Tag

/-! The graph that a document describes, with its tags but before its scalars mean anything. Nodes go
by number, and an alias is the number of the node that it names. -/
namespace CheckedModels.Yaml

abbrev NodeId := Nat

inductive Node where
  | scalar (tag : Tag) (text : Text)
  | sequence (tag : Tag) (items : List NodeId)
  | mapping (tag : Tag) (entries : List (NodeId × NodeId))
deriving Repr, DecidableEq, Inhabited

namespace Node

/-- What stands where nothing is written. -/
def empty : Node := scalar .null ""

def tag : Node → Tag
  | scalar tag _ | sequence tag _ | mapping tag _ => tag

def withTag (tag : Tag) : Node → Node
  | scalar _ text => scalar tag text
  | sequence _ items => sequence tag items
  | mapping _ entries => mapping tag entries

end Node

structure Graph where
  nodes : Array Node := #[]
deriving Inhabited

namespace Graph

def node (g : Graph) (id : NodeId) : Node := (g.nodes[id]?).getD .empty

def tag (g : Graph) (id : NodeId) : Tag := (g.node id).tag

def set (g : Graph) (id : NodeId) (n : Node) : Graph := ⟨g.nodes.setIfInBounds id n⟩

def add (g : Graph) (n : Node) : NodeId × Graph := (g.nodes.size, ⟨g.nodes.push n⟩)

def entryCount (g : Graph) : Nat :=
  g.nodes.foldl (fun count n => match n with
    | .mapping _ entries => count + entries.length
    | _ => count) 0

end Graph

end CheckedModels.Yaml
