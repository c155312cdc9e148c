import IncrementalFrontend.Syntax.Tree
import IncrementalFrontend.Text.Quoted

/-!
The outline of a tree: a line for every node that scopes reach, indented by their number.
-/
namespace IncrementalFrontend

namespace Node

def detail? (names : Interner) : Node → Option String
  | .comment text _ => some (names.lookup text)
  | .integer value => some (toString value.toNat)
  | .string content => some (Text.quote (names.lookup content))
  | .operation operator _ => some operator.symbol.text
  | node => node.name?.map names.lookup

end Node

namespace SyntaxTree

def indentation (depth : Nat) : String :=
  String.ofList (List.replicate (2 * depth) ' ')

def Visit.line (names : Interner) (visit : Visit) : String :=
  let head := indentation visit.depth ++ visit.node.kindText
  match visit.node.detail? names with
  | some detail => head ++ " " ++ detail ++ "\n"
  | none => head ++ "\n"

def outline (tree : SyntaxTree) (names : Interner) : String :=
  String.join (tree.walk.map (Visit.line names))

end SyntaxTree

end IncrementalFrontend
