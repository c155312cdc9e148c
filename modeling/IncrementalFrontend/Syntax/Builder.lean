import IncrementalFrontend.Diagnostic.Basic
import IncrementalFrontend.Syntax.Tree

/-!
A builder assembles a syntax tree from events: scopes open and close, nodes are stored and attached
to the innermost open scope. No attached node is lost, whatever the order of the events.
-/
namespace IncrementalFrontend

structure Builder where
  unit : SourceUnit
  nodes : Array PlacedNode
  topLevel : Array NodeId
  scopes : List (Array NodeId)
  diagnostics : Array Diagnostic
deriving DecidableEq

namespace Builder

def ofUnit (unit : SourceUnit) : Builder :=
  ⟨unit, #[], #[], [], #[]⟩

def path (builder : Builder) : Name :=
  builder.unit.path

def depth (builder : Builder) : Nat :=
  builder.scopes.length

def errorCount (builder : Builder) : Nat :=
  builder.diagnostics.countP Diagnostic.isError

def openScope (builder : Builder) : Builder :=
  { builder with scopes := #[] :: builder.scopes }

def closeScope (builder : Builder) : List NodeId × Builder :=
  match builder.scopes with
  | [] => ([], builder)
  | members :: outer => (members.toList, { builder with scopes := outer })

def attach (builder : Builder) (id : NodeId) : Builder :=
  match builder.scopes with
  | [] => { builder with topLevel := builder.topLevel.push id }
  | members :: outer => { builder with scopes := members.push id :: outer }

def store (builder : Builder) (node : Node) (location : Location) : NodeId × Builder :=
  (builder.nodes.size, { builder with nodes := builder.nodes.push ⟨node, location⟩ })

def add (builder : Builder) (node : Node) (location : Location) : NodeId × Builder :=
  let (id, builder) := builder.store node location
  (id, builder.attach id)

def dissolveScope (builder : Builder) : Builder :=
  let (members, builder) := builder.closeScope
  members.foldl attach builder

/-- Dissolves the innermost scopes until at most `depth` are open, and tells how many. -/
def unwindTo (builder : Builder) (depth : Nat) : Nat × Builder :=
  let surplus := builder.depth - depth
  (surplus, Nat.repeat dissolveScope surplus builder)

def report (builder : Builder) (diagnostic : Diagnostic) : Builder :=
  { builder with diagnostics := builder.diagnostics.push diagnostic }

def tree (builder : Builder) : SyntaxTree :=
  ⟨builder.unit, builder.nodes,
    builder.scopes.foldr (fun members kept => kept ++ members.toList) builder.topLevel.toList⟩

@[simp] theorem depth_openScope (builder : Builder) :
    builder.openScope.depth = builder.depth + 1 :=
  rfl

@[simp] theorem depth_attach (builder : Builder) (id : NodeId) :
    (builder.attach id).depth = builder.depth := by
  unfold attach depth
  split <;> simp [*]

@[simp] theorem nodes_attach (builder : Builder) (id : NodeId) :
    (builder.attach id).nodes = builder.nodes := by
  unfold attach
  split <;> rfl

theorem depth_closeScope (builder : Builder) :
    builder.closeScope.2.depth = builder.depth - 1 := by
  unfold closeScope depth
  split <;> simp [*]

theorem closeScope_openScope (builder : Builder) : builder.openScope.closeScope = ([], builder) :=
  rfl

theorem depth_dissolveScope (builder : Builder) :
    builder.dissolveScope.depth = builder.depth - 1 := by
  have keeps (members : List NodeId) (builder : Builder) :
      (members.foldl attach builder).depth = builder.depth := by
    induction members generalizing builder with
    | nil => rfl
    | cons id rest ih => simp [ih]
  simp [dissolveScope, keeps, depth_closeScope]

theorem depth_unwindTo (builder : Builder) (depth : Nat) :
    (builder.unwindTo depth).2.depth = min builder.depth depth := by
  have after (count : Nat) :
      (Nat.repeat dissolveScope count builder).depth = builder.depth - count := by
    induction count with
    | zero => rfl
    | succ count ih => rw [Nat.repeat, depth_dissolveScope, ih]; omega
  rw [unwindTo, after]
  omega

@[simp] theorem errorCount_report (builder : Builder) (diagnostic : Diagnostic) :
    (builder.report diagnostic).errorCount =
      builder.errorCount + if diagnostic.isError then 1 else 0 := by
  simp [report, errorCount, Array.countP_push]

end Builder

end IncrementalFrontend
