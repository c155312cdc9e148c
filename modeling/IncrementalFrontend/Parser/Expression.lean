import IncrementalFrontend.Parser.Basic

/-!
Expressions. From the loosest to the tightest: assignment, which associates to the right; the binary
levels, which associate to the left; signs; calls and field access; and the primary expressions.
Parentheses group and leave no node.
-/
namespace IncrementalFrontend

def Operator.binaryLevels : List (List Operator) :=
  [[.or], [.and], [.equal, .notEqual], [.less, .lessEqual, .greater, .greaterEqual],
    [.add, .subtract], [.multiply, .divide, .remainder]]

def Operator.unary : List Operator :=
  [.negate, .not]

def TokenKind.operatorAmong? (kind : TokenKind) (operators : List Operator) : Option Operator :=
  operators.find? fun operator => kind == .symbol operator.symbol

namespace Parser

def storeOperation (operator : Operator) (operands : List NodeId) (start : Span) : Parser NodeId :=
  store (.operation operator operands) start

def primary (expression : Parser NodeId) : Parser NodeId := do
  let token ← current
  let leaf (node : Node) : Parser NodeId := do
    let _ ← advance
    let location ← locate token.span
    build (·.store node location)
  match token.kind with
  | .identifier name => leaf (.identifier name)
  | .integer value => leaf (.integer value)
  | .string content => leaf (.string content)
  | .symbol .parenOpen =>
    let _ ← advance
    let inner ← expression
    let _ ← expectSymbol .parenClose
    return inner
  | _ => throw (.noExpression token)

def suffixed (expression : Parser NodeId) : Parser NodeId := do
  let start ← currentSpan
  let head ← primary expression
  loop head fun node => do
    if ← eatSymbol .parenOpen then
      let actuals ← listUntil .parenClose expression
      return .again (← store (.call node actuals) start)
    else if ← eatSymbol .dot then
      let name ← expectIdentifier
      return .again (← store (.field node name) start)
    else
      return .done node

def signs : Parser (List (Operator × Span)) :=
  loop [] fun signs => do
    match (← kind).operatorAmong? Operator.unary with
    | some operator => return .again ((operator, (← advance).span) :: signs)
    | none => return .done signs

def signed (expression : Parser NodeId) : Parser NodeId := do
  let signs ← signs
  let operand ← suffixed expression
  signs.foldlM (fun node (operator, start) => storeOperation operator [node] start) operand

def leftAssociative (operators : List Operator) (operand : Parser NodeId) : Parser NodeId := do
  let start ← currentSpan
  let first ← operand
  loop first fun left => do
    match (← kind).operatorAmong? operators with
    | none => return .done left
    | some operator =>
      let _ ← advance
      let right ← operand
      return .again (← storeOperation operator [left, right] start)

def binary (expression : Parser NodeId) : Parser NodeId :=
  Operator.binaryLevels.foldr leftAssociative (signed expression)

def assignment (expression : Parser NodeId) : Parser NodeId := do
  let start ← currentSpan
  let target ← binary expression
  if ← eatSymbol .equal then
    let value ← expression
    storeOperation .assign [target, value] start
  else
    return target

def expression : Parser NodeId :=
  recursive assignment

def typeExpression : Parser NodeId :=
  mapError ParseError.inTypePosition (suffixed expression)

end Parser

end IncrementalFrontend
