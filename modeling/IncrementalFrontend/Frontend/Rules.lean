import IncrementalFrontend.Diagnostic.Sink
import IncrementalFrontend.Frontend.Query

/-!
How each query of the front end is computed. Everything but scripts and files depends on its key and
on other queries alone.
-/
namespace IncrementalFrontend

namespace Frontend

abbrev Compute (α : Type) := Computation signature α

namespace Compute

def query (query : Query) : Compute query.Value :=
  Computation.value (S := signature) query

def world (request : Request) : Compute request.Reply :=
  Computation.reply (S := signature) request

def intern (text : String) : Compute Name :=
  world (.intern text)

/-- The text of a file. What is read is not known to the engine, so each revision reads again. -/
def fileText (path : Name) : Compute FileContents := do
  let path ← world (.lookup path)
  let contents ← world (.read path)
  return contents.mapError fun reason => "cannot read `" ++ path ++ "`: " ++ reason

def parse (unit : SourceUnit) (text : String) : Compute SyntaxTree := do
  let parsed ← world (.parse unit text)
  parsed.diagnostics.forM Computation.tell
  return parsed.tree

def parseFile (key : FileKey) : Compute SyntaxTree := do
  let contents ← query (.fileText key.path)
  let unit ← world (.unit key.path key.parent)
  match contents with
  | .ok text => parse unit text
  | .error message =>
    Computation.tell (.unreadableFile (.file key.path) message)
    return .blank unit

def parseString (key : StringKey) : Compute SyntaxTree := do
  let unit ← world (.unit key.label key.parent)
  parse unit key.text

def linkage (key : DeclarationKey) : Compute Linkage := do
  let tree ← query (.parseFile key.file)
  return ((tree.node? key.node).map Node.linkage).getD .internal

def composite (kind : CompositeKind) (declaration : DeclarationKey) (name : Name) :
    Compute Composite := do
  let linkage ← query (.linkage declaration)
  query (.composite ⟨kind, declaration, name, none, .empty, linkage⟩)

def linkageNumber : Linkage → Int64
  | .internal => 0
  | .external => 1
  | .exported => 2

def reportFrom (severity : Severity) (message : String) : Compute Int64 := do
  let path ← intern ""
  let diagnostic : Diagnostic := ⟨.engineFailure, severity, message, .file path, []⟩
  Computation.tell diagnostic
  return if diagnostic.guarantee.isSome then 1 else 0

def topLevelFile (path : String) : Compute FileKey := do
  return ⟨← intern path, .empty⟩

mutual

def script : Script → Compute Int64
  | .literal value => return value
  | .query kind key => query (.scripted kind key)
  | .external key => world (.external key)
  | .add parts => return (← scripts parts).foldl (· + ·) 0
  | .multiply parts => return (← scripts parts).foldl (· * ·) 1
  | .remainder dividend divisor => do
    let dividend ← script dividend
    let divisor ← script divisor
    return Script.euclideanRemainder dividend divisor
  | .sequence parts => return (← scripts parts).getLast?.getD 0
  | .choose condition whenNonzero whenZero => do
    if (← script condition) ≠ 0 then script whenNonzero else script whenZero
  | .attempt first second => (script first).orElse (script second)
  | .fail error => .fail error
  | .isInQuery => return 1
  | .report severity message => reportFrom severity message
  | .topLevel path => do
    let tree ← query (.parseFile (← topLevelFile path))
    return Int64.ofNat tree.topLevel.length
  | .nodes label text => do
    let tree ← query (.parseString ⟨← intern label, .empty, text⟩)
    return Int64.ofNat tree.nodes.size
  | .linkage path node => do
    return linkageNumber (← query (.linkage ⟨← topLevelFile path, node⟩))
  | .record path node name => do
    let file ← topLevelFile path
    let name ← intern name
    return linkageNumber (← composite .record ⟨file, node⟩ name).linkage

def scripts : List Script → Compute (List Int64)
  | [] => return []
  | part :: rest => do
    let value ← script part
    let values ← scripts rest
    return value :: values

end

def ofQuery : (query : Query) → Compute query.Value
  | .scripted kind key => do script (← world (.start kind key))
  | .fileText path => fileText path
  | .parseFile key => parseFile key
  | .parseString key => parseString key
  | .linkage key => linkage key
  | .composite type => return type

end Compute

def rules : Rules signature where
  compute := Compute.ofQuery
  isVolatile := Query.isVolatile
  isUnchanged := Query.isUnchanged
  label := Query.label
  references := Query.references
  serve := World.serve

end Frontend

end IncrementalFrontend
