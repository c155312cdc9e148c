import IncrementalFrontend.Source.Location
import IncrementalFrontend.Source.Unit
import IncrementalFrontend.Syntax.Node

/-!
A syntax tree holds all nodes of a unit in the order they were made, each with its location, and
lists the entries at its top level. Equal texts give equal trees.
-/
namespace IncrementalFrontend

structure PlacedNode where
  node : Node
  location : Location
deriving DecidableEq

structure SyntaxTree where
  unit : SourceUnit
  nodes : Array PlacedNode
  topLevel : List NodeId
deriving DecidableEq

namespace SyntaxTree

def blank (unit : SourceUnit) : SyntaxTree :=
  ⟨unit, #[], []⟩

def isEmpty (tree : SyntaxTree) : Bool :=
  tree.topLevel.isEmpty

def node? (tree : SyntaxTree) (id : NodeId) : Option Node :=
  tree.nodes[id]?.map (·.node)

def location (tree : SyntaxTree) (id : NodeId) : Location :=
  (tree.nodes[id]?.map (·.location)).getD (.file tree.unit.path)

def nodesOf (tree : SyntaxTree) (ids : List NodeId) : List Node :=
  ids.filterMap tree.node?

def topLevelNode? (tree : SyntaxTree) (place : Nat) : Option Node :=
  tree.topLevel[place]?.bind tree.node?

def elementNames (tree : SyntaxTree) (members : List NodeId) : List Name :=
  (tree.nodesOf members).filterMap fun
    | .enumElement name _ => some name
    | _ => none

structure Visit where
  id : NodeId
  node : Node
  depth : Nat

def walkFrom (tree : SyntaxTree) : (levels : Nat) → (depth : Nat) → NodeId → List Visit
  | 0, _, _ => []
  | levels + 1, depth, id =>
    match tree.node? id with
    | none => []
    | some node =>
      ⟨id, node, depth⟩ :: node.members.flatMap (tree.walkFrom levels (depth + 1))

/-- All nodes that the top level reaches through scopes, in source order. No chain of scopes is
longer than the tree has nodes. -/
def walk (tree : SyntaxTree) : List Visit :=
  tree.topLevel.flatMap (tree.walkFrom tree.nodes.size 0)

end SyntaxTree

end IncrementalFrontend
