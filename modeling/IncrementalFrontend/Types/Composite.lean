import IncrementalFrontend.Syntax.Node
import IncrementalFrontend.Types.Substitutions

/-!
Records, classes and unions. A composite type is its full description, in which other types stand
by their identity; the session keeps one instance for each description.
-/
namespace IncrementalFrontend

structure FileKey where
  path : Name
  parent : Name
deriving DecidableEq, Repr

structure DeclarationKey where
  file : FileKey
  node : NodeId
deriving DecidableEq, Repr

namespace FileKey

def label (key : FileKey) : String :=
  s!"FileKey \x7b path: {key.path.label}, parent_symbol_path: {key.parent.label} \x7d"

end FileKey

namespace DeclarationKey

def label (key : DeclarationKey) : String :=
  s!"DeclId \x7b file: {key.file.label}, node: NodeId({key.node}) \x7d"

end DeclarationKey

inductive CompositeKind where
  | record
  | class_
  | union
deriving DecidableEq, Repr

def CompositeKind.text : CompositeKind → String
  | record => "Record"
  | class_ => "Class"
  | union => "Union"

def Linkage.label : Linkage → String
  | internal => "Default"
  | external => "Extern"
  | exported => "Export"

structure Composite where
  kind : CompositeKind
  declaration : DeclarationKey
  name : Name
  generic : Option TypeId
  substitutions : Substitutions
  linkage : Linkage
deriving DecidableEq, Repr

namespace Composite

def mentioned (type : Composite) : List TypeId :=
  type.generic.toList ++ type.substitutions.bindings.map (·.2)

/-- The end of the chain of generic types that starts with `type`. Types that a type mentions were
made before it, so a chain that does not descend is no chain of types. -/
def chainEnd (find? : TypeId → Option Composite) (type : TypeId) : TypeId :=
  match (find? type).bind (·.generic) with
  | none => type
  | some next => if next < type then chainEnd find? next else type
termination_by type

def root? (find? : TypeId → Option Composite) (type : Composite) : Option TypeId :=
  type.generic.map (chainEnd find?)

def typeLabel (type : TypeId) : String :=
  s!"@{type}"

def label (type : Composite) : String :=
  let generic := match type.generic with
    | none => "None"
    | some generic => s!"Some({typeLabel generic})"
  let bindings := ", ".intercalate (type.substitutions.bindings.map fun (parameter, bound) =>
    s!"({parameter.label}, {typeLabel bound})")
  s!"CompositeKey \x7b kind: {type.kind.text}, id: {type.declaration.label}, " ++
    s!"name: {type.name.label}, instantiated_from: {generic}, " ++
    s!"substitutions: Substitutions([{bindings}]), " ++
    s!"linkage: {type.linkage.label} \x7d"

end Composite

end IncrementalFrontend
