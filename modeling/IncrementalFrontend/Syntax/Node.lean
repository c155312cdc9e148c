import IncrementalFrontend.Name.Basic
import IncrementalFrontend.Token.Basic

/-!
Nodes of syntax trees. A node refers to other nodes of its tree by their position in the tree.
-/
namespace IncrementalFrontend

abbrev NodeId := Nat

inductive Visibility where
  | unmarked
  | publicly
  | privately
deriving DecidableEq, Repr

inductive Linkage where
  | internal
  | external
  | exported
deriving DecidableEq, Repr

inductive FunctionKind where
  | procedure
  | iterator
deriving DecidableEq, Repr

inductive ReturnIntent where
  | unmarked
  | constant
  | constantReference
  | reference
  | parameter
  | type
deriving DecidableEq, Repr

inductive Intent where
  | unmarked
  | constant
  | constantReference
  | reference
  | input
  | output
  | inputOutput
  | parameter
  | type
deriving DecidableEq, Repr

inductive VariableKind where
  | mutable
  | constant
  | parameter
  | reference
deriving DecidableEq, Repr

inductive Operator where
  | assign
  | or
  | and
  | equal
  | notEqual
  | less
  | lessEqual
  | greater
  | greaterEqual
  | add
  | subtract
  | multiply
  | divide
  | remainder
  | negate
  | not
deriving DecidableEq, Repr

namespace Operator

def symbol : Operator → Symbol
  | assign => .equal
  | or => .orOr
  | and => .andAnd
  | equal => .equalEqual
  | notEqual => .notEqual
  | less => .less
  | lessEqual => .lessEqual
  | greater => .greater
  | greaterEqual => .greaterEqual
  | add => .plus
  | subtract | negate => .minus
  | multiply => .star
  | divide => .slash
  | remainder => .percent
  | not => .bang

def isUnary : Operator → Bool
  | negate | not => true
  | _ => false

end Operator

/-- Everything about a function. A missing body is not the same as an empty one. -/
structure Function where
  name : Name
  visibility : Visibility
  linkage : Linkage
  linkageName : Option NodeId
  kind : FunctionKind
  returnIntent : ReturnIntent
  isInline : Bool
  isOverride : Bool
  doesThrow : Bool
  formals : List NodeId
  returnType : Option NodeId
  condition : Option NodeId
  body : Option (List NodeId)
deriving DecidableEq, Repr

inductive Node where
  | comment (text : Name) (style : CommentStyle)
  | moduleDecl (name : Name) (visibility : Visibility) (isPrototype : Bool) (members : List NodeId)
  | enumDecl (name : Name) (visibility : Visibility) (members : List NodeId)
  | enumElement (name : Name) (init : Option NodeId)
  | functionDecl (function : Function)
  | formal (name : Name) (intent : Intent) (type init : Option NodeId)
  | variableDecl (name : Name) (visibility : Visibility) (kind : VariableKind)
      (type init : Option NodeId)
  | identifier (name : Name)
  | integer (value : UInt64)
  | string (content : Name)
  | call (callee : NodeId) (actuals : List NodeId)
  | field (receiver : NodeId) (name : Name)
  | operation (operator : Operator) (operands : List NodeId)
  | result (value : Option NodeId)
  | block (members : List NodeId)
  | erroneous
deriving DecidableEq, Repr

namespace Node

def name? : Node → Option Name
  | .moduleDecl name .. | .enumDecl name .. | .enumElement name .. | .formal name ..
  | .variableDecl name .. | .identifier name => some name
  | .functionDecl function => some function.name
  | _ => none

def linkage : Node → Linkage
  | .functionDecl function => function.linkage
  | _ => .internal

def members : Node → List NodeId
  | .moduleDecl _ _ _ members | .enumDecl _ _ members | .block members => members
  | .functionDecl function => function.body.getD []
  | _ => []

def kindText : Node → String
  | .comment .. => "comment"
  | .moduleDecl .. => "module"
  | .enumDecl .. => "enum"
  | .enumElement .. => "enum element"
  | .functionDecl .. => "function"
  | .formal .. => "formal"
  | .variableDecl .. => "variable"
  | .identifier .. => "identifier"
  | .integer .. => "integer literal"
  | .string .. => "string literal"
  | .call .. => "call"
  | .field .. => "dot"
  | .operation .. => "operator call"
  | .result .. => "return"
  | .block .. => "block"
  | .erroneous => "erroneous expression"

end Node

end IncrementalFrontend
