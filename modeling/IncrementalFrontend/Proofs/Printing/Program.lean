import Mathlib.Data.List.Forall2
import IncrementalFrontend.Syntax.Tree

/-!
Programs, how they are written, and what it means that a syntax tree holds one. A program is what a
text says, without places and ids; it is written with no more parentheses than the levels of its
operators ask for.
-/
namespace IncrementalFrontend

def Operator.level : Operator → Nat
  | assign => 0
  | or => 1
  | and => 2
  | equal | notEqual => 3
  | less | lessEqual | greater | greaterEqual => 4
  | add | subtract => 5
  | multiply | divide | remainder => 6
  | negate | not => 7

def Operator.operandLevels : Operator → Nat × Nat
  | assign => (1, 0)
  | operator => (operator.level, operator.level + 1)

namespace Program

inductive Expression where
  | identifier (name : Name)
  | integer (value : UInt64)
  | string (content : Name)
  | call (callee : Expression) (actuals : List Expression)
  | field (receiver : Expression) (name : Name)
  | unary (operator : Operator) (isUnary : operator.isUnary = true) (operand : Expression)
  | binary (operator : Operator) (isBinary : operator.isUnary = false) (left right : Expression)

structure Formal where
  intent : Intent
  name : Name
  type : Option Expression
  init : Option Expression

/-- A function up to its body. Only a function with a linkage keyword has a name in object code. -/
structure Header where
  visibility : Visibility
  linkage : Linkage
  linkageName : Option Name
  isInline : Bool
  isOverride : Bool
  kind : FunctionKind
  name : Name
  formals : List Formal
  returnIntent : ReturnIntent
  returnType : Option Expression
  doesThrow : Bool
  condition : Option Expression
  isLinked : linkage = .internal → linkageName = none

inductive EnumMember where
  | comment (text : Name) (style : CommentStyle)
  | element (name : Name) (init : Option Expression)

inductive Statement where
  | comment (text : Name) (style : CommentStyle)
  | moduleDecl (visibility : Visibility) (isPrototype : Bool) (name : Name) (members : List Statement)
  | enumDecl (visibility : Visibility) (name : Name) (members : List EnumMember)
  | functionDecl (header : Header) (isOwn : header.linkage ≠ .external) (body : List Statement)
  | functionHead (header : Header)
  | variableDecl (visibility : Visibility) (kind : VariableKind) (name : Name)
      (type init : Option Expression)
  | result (value : Option Expression)
  | block (members : List Statement)
  | expression (value : Expression)

def grouped (isNeeded : Bool) (tokens : List TokenKind) : List TokenKind :=
  if isNeeded then .symbol .parenOpen :: (tokens ++ [.symbol .parenClose]) else tokens

def separated : List (List TokenKind) → List TokenKind
  | [] => []
  | [last] => last
  | item :: next :: rest => item ++ .symbol .comma :: separated (next :: rest)

mutual

/-- The tokens of an expression in a place that asks for a level. Calls, field accesses and what is
primary bind tighter than any operator. -/
def Expression.tokens : Expression → Nat → List TokenKind
  | .identifier name, _ => [.identifier name]
  | .integer value, _ => [.integer value]
  | .string content, _ => [.string content]
  | .call callee actuals, _ =>
    callee.tokens 8 ++ .symbol .parenOpen :: (separated (Expression.each actuals) ++ [.symbol .parenClose])
  | .field receiver name, _ => receiver.tokens 8 ++ [.symbol .dot, .identifier name]
  | .unary operator _ operand, level =>
    grouped (operator.level < level) (.symbol operator.symbol :: operand.tokens operator.level)
  | .binary operator _ left right, level =>
    grouped (operator.level < level) (left.tokens operator.operandLevels.1 ++
      .symbol operator.symbol :: right.tokens operator.operandLevels.2)

def Expression.each : List Expression → List (List TokenKind)
  | [] => []
  | expression :: rest => expression.tokens 0 :: Expression.each rest

end

def led (leader : TokenKind) (level : Nat) : Option Expression → List TokenKind
  | none => []
  | some expression => leader :: expression.tokens level

def typed : Option Expression → List TokenKind :=
  led (.symbol .colon) 8

def initialized : Option Expression → List TokenKind :=
  led (.symbol .equal) 0

def marked (word : Keyword) (isThere : Bool) : List TokenKind :=
  if isThere then [.keyword word] else []

def visibilityTokens : Visibility → List TokenKind
  | .unmarked => []
  | .publicly => [.keyword .kwPublic]
  | .privately => [.keyword .kwPrivate]

def linkageTokens : Linkage → List TokenKind
  | .internal => []
  | .external => [.keyword .kwExtern]
  | .exported => [.keyword .kwExport]

def functionKindTokens : FunctionKind → List TokenKind
  | .procedure => [.keyword .kwProc]
  | .iterator => [.keyword .kwIter]

def intentTokens : Intent → List TokenKind
  | .unmarked => []
  | .constant => [.keyword .kwConst]
  | .constantReference => [.keyword .kwConst, .keyword .kwRef]
  | .reference => [.keyword .kwRef]
  | .input => [.keyword .kwIn]
  | .output => [.keyword .kwOut]
  | .inputOutput => [.keyword .kwInout]
  | .parameter => [.keyword .kwParam]
  | .type => [.keyword .kwType]

def returnIntentTokens : ReturnIntent → List TokenKind
  | .unmarked => []
  | .constant => [.keyword .kwConst]
  | .constantReference => [.keyword .kwConst, .keyword .kwRef]
  | .reference => [.keyword .kwRef]
  | .parameter => [.keyword .kwParam]
  | .type => [.keyword .kwType]

def variableKindToken : VariableKind → TokenKind
  | .mutable => .keyword .kwVar
  | .constant => .keyword .kwConst
  | .parameter => .keyword .kwParam
  | .reference => .keyword .kwRef

def Formal.tokens (formal : Formal) : List TokenKind :=
  intentTokens formal.intent ++ .identifier formal.name ::
    (typed formal.type ++ initialized formal.init)

def Header.signature (header : Header) : List TokenKind :=
  marked .kwInline header.isInline ++ marked .kwOverride header.isOverride ++
    functionKindTokens header.kind ++ .identifier header.name :: .symbol .parenOpen ::
    (separated (header.formals.map Formal.tokens) ++ .symbol .parenClose ::
      (returnIntentTokens header.returnIntent ++ typed header.returnType ++
        marked .kwThrows header.doesThrow ++ led (.keyword .kwWhere) 0 header.condition))

def Header.tokens (header : Header) : List TokenKind :=
  visibilityTokens header.visibility ++ linkageTokens header.linkage ++
    header.linkageName.toList.map .string ++ header.signature

inductive Piece where
  | token (kind : TokenKind)
  | comment (text : Name) (style : CommentStyle)

def written (tokens : List TokenKind) : List Piece :=
  tokens.map .token

def EnumMember.isElement : EnumMember → Bool
  | .comment .. => false
  | .element .. => true

def enumPieces : List EnumMember → List Piece
  | [] => []
  | .comment text style :: rest => .comment text style :: enumPieces rest
  | .element name init :: rest =>
    written (.identifier name :: initialized init ++
      if rest.any EnumMember.isElement then [.symbol .comma] else []) ++ enumPieces rest

mutual

def Statement.pieces : Statement → List Piece
  | .comment text style => [.comment text style]
  | .moduleDecl visibility isPrototype name members =>
    written (visibilityTokens visibility ++ marked .kwPrototype isPrototype ++
      [.keyword .kwModule, .identifier name, .symbol .braceOpen]) ++
      (Statement.listPieces members ++ [.token (.symbol .braceClose)])
  | .enumDecl visibility name members =>
    written (visibilityTokens visibility ++
      [.keyword .kwEnum, .identifier name, .symbol .braceOpen]) ++
      (enumPieces members ++ [.token (.symbol .braceClose)])
  | .functionDecl header _ body =>
    written (header.tokens ++ [.symbol .braceOpen]) ++
      (Statement.listPieces body ++ [.token (.symbol .braceClose)])
  | .functionHead header => written (header.tokens ++ [.symbol .semicolon])
  | .variableDecl visibility kind name type init =>
    written (visibilityTokens visibility ++ variableKindToken kind :: .identifier name ::
      (typed type ++ initialized init ++ [.symbol .semicolon]))
  | .result none => written [.keyword .kwReturn, .symbol .semicolon]
  | .result (some value) => written (.keyword .kwReturn :: (value.tokens 0 ++ [.symbol .semicolon]))
  | .block members =>
    .token (.symbol .braceOpen) :: (Statement.listPieces members ++ [.token (.symbol .braceClose)])
  | .expression value => written (value.tokens 0 ++ [.symbol .semicolon])

def Statement.listPieces : List Statement → List Piece
  | [] => []
  | statement :: rest => statement.pieces ++ Statement.listPieces rest

end

section

variable (tree : SyntaxTree)

mutual

def Expression.IsAt : Expression → NodeId → Prop
  | .identifier name, id => tree.node? id = some (.identifier name)
  | .integer value, id => tree.node? id = some (.integer value)
  | .string content, id => tree.node? id = some (.string content)
  | .call callee actuals, id => ∃ first others, tree.node? id = some (.call first others) ∧
      callee.IsAt first ∧ Expression.AreAt actuals others
  | .field receiver name, id => ∃ inner, tree.node? id = some (.field inner name) ∧ receiver.IsAt inner
  | .unary operator _ operand, id => ∃ inner,
      tree.node? id = some (.operation operator [inner]) ∧ operand.IsAt inner
  | .binary operator _ left right, id => ∃ first second,
      tree.node? id = some (.operation operator [first, second]) ∧ left.IsAt first ∧ right.IsAt second

def Expression.AreAt : List Expression → List NodeId → Prop
  | [], ids => ids = []
  | expression :: rest, ids => ∃ id others, ids = id :: others ∧ expression.IsAt id ∧
      Expression.AreAt rest others

end

def Formal.IsAt (formal : Formal) (id : NodeId) : Prop :=
  ∃ type init, tree.node? id = some (.formal formal.name formal.intent type init) ∧
    Option.Rel (Expression.IsAt tree) formal.type type ∧
    Option.Rel (Expression.IsAt tree) formal.init init

/-- The tree holds the parts of a header where a function refers to them, and the rest of the header
is in the function itself. -/
structure Header.IsOf (header : Header) (function : Function) : Prop where
  name : function.name = header.name
  visibility : function.visibility = header.visibility
  linkage : function.linkage = header.linkage
  linkageName : Option.Rel (fun text id => tree.node? id = some (.string text)) header.linkageName
    function.linkageName
  kind : function.kind = header.kind
  returnIntent : function.returnIntent = header.returnIntent
  isInline : function.isInline = header.isInline
  isOverride : function.isOverride = header.isOverride
  doesThrow : function.doesThrow = header.doesThrow
  formals : List.Forall₂ (Formal.IsAt tree) header.formals function.formals
  returnType : Option.Rel (Expression.IsAt tree) header.returnType function.returnType
  condition : Option.Rel (Expression.IsAt tree) header.condition function.condition

def EnumMember.IsAt : EnumMember → NodeId → Prop
  | .comment text style, id => tree.node? id = some (.comment text style)
  | .element name init, id => ∃ value, tree.node? id = some (.enumElement name value) ∧
      Option.Rel (Expression.IsAt tree) init value

mutual

def Statement.IsAt : Statement → NodeId → Prop
  | .comment text style, id => tree.node? id = some (.comment text style)
  | .moduleDecl visibility isPrototype name members, id => ∃ ids,
      tree.node? id = some (.moduleDecl name visibility isPrototype ids) ∧ Statement.AreAt members ids
  | .enumDecl visibility name members, id => ∃ ids,
      tree.node? id = some (.enumDecl name visibility ids) ∧
        List.Forall₂ (EnumMember.IsAt tree) members ids
  | .functionDecl header _ body, id => ∃ function ids, tree.node? id = some (.functionDecl function) ∧
      header.IsOf tree function ∧ function.body = some ids ∧ Statement.AreAt body ids
  | .functionHead header, id => ∃ function, tree.node? id = some (.functionDecl function) ∧
      header.IsOf tree function ∧ function.body = none
  | .variableDecl visibility kind name type init, id => ∃ typeId initId,
      tree.node? id = some (.variableDecl name visibility kind typeId initId) ∧
        Option.Rel (Expression.IsAt tree) type typeId ∧ Option.Rel (Expression.IsAt tree) init initId
  | .result value, id => ∃ valueId, tree.node? id = some (.result valueId) ∧
      Option.Rel (Expression.IsAt tree) value valueId
  | .block members, id => ∃ ids, tree.node? id = some (.block ids) ∧ Statement.AreAt members ids
  | .expression value, id => value.IsAt tree id

def Statement.AreAt : List Statement → List NodeId → Prop
  | [], ids => ids = []
  | statement :: rest, ids => ∃ id others, ids = id :: others ∧ statement.IsAt id ∧
      Statement.AreAt rest others

end

end

end Program

end IncrementalFrontend
