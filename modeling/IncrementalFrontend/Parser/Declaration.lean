import IncrementalFrontend.Parser.Expression

/-!
Declarations: modules, enumerations, functions and variables. Each starts at a given span, since
its visibility was read before, and is attached to the innermost scope when it is complete.
-/
namespace IncrementalFrontend

namespace Parser

def closeBrace (opening : Span) : Parser Unit := do
  unless ← eatSymbol .braceClose do
    reportDiagnostic (.unclosedDelimiter (← locate opening) Symbol.braceOpen.text)

def bracedMembers (statement : Parser Unit) (opening : Span) : Parser (List NodeId) := do
  openScope
  loop () fun _ => do
    flushComments
    if (← isAt (.symbol .braceClose)) || (← isAtEnd) then
      return .done ()
    statement
    return .again ()
  let members ← closeScope
  closeBrace opening
  return members

def moduleDeclaration (statement : Parser Unit) (visibility : Visibility) (start : Span) :
    Parser Unit := do
  let isPrototype ← eatKeyword .kwPrototype
  let _ ← expectKeyword .kwModule
  let name ← expectIdentifier
  let opening ← expectSymbol .braceOpen
  let members ← bracedMembers statement opening.span
  add (.moduleDecl name visibility isPrototype members) start

/-- An element of an enumeration and the comma after it, which only the last one may lack. The
element is attached before the comma is looked for, so a missing comma does not lose it. -/
def enumElement (enumName : Name) : Parser Unit := do
  let start ← currentSpan
  let name ← whileParsing "enum" enumName expectIdentifier
  let init ← whileParsing "enum" enumName (afterSymbol .equal expression)
  add (.enumElement name init) start
  unless ← eatSymbol .comma do
    flushComments
    unless (← isAt (.symbol .braceClose)) || (← isAtEnd) do
      whileParsing "enum" enumName (throw (.unexpected "`,` or `\x7d`" (← current)))

def enumDeclaration (visibility : Visibility) (start : Span) : Parser Unit := do
  let _ ← advance
  let name ← expectIdentifier
  let opening ← expectSymbol .braceOpen
  openScope
  loop () fun _ => do
    flushComments
    if (← isAt (.symbol .braceClose)) || (← isAtEnd) then
      return .done ()
    enumElement name
    return .again ()
  let members ← closeScope
  closeBrace opening.span
  add (.enumDecl name visibility members) start

def linkage : Parser Linkage := do
  if ← eatKeyword .kwExtern then
    return .external
  else if ← eatKeyword .kwExport then
    return .exported
  else
    return .internal

def linkageName (linkage : Linkage) : Parser (Option NodeId) := do
  match ← kind with
  | .string _ => if linkage = .internal then return none else return some (← primary expression)
  | _ => return none

def functionKind : Parser FunctionKind := do
  if ← eatKeyword .kwProc then
    return .procedure
  else if ← eatKeyword .kwIter then
    return .iterator
  else
    throw (.unexpected "`proc` or `iter`" (← current))

def intent : Parser Intent := do
  match ← kind with
  | .keyword .kwConst =>
    let _ ← advance
    return if ← eatKeyword .kwRef then .constantReference else .constant
  | .keyword .kwRef => let _ ← advance; return .reference
  | .keyword .kwIn => let _ ← advance; return .input
  | .keyword .kwOut => let _ ← advance; return .output
  | .keyword .kwInout => let _ ← advance; return .inputOutput
  | .keyword .kwParam => let _ ← advance; return .parameter
  | .keyword .kwType => let _ ← advance; return .type
  | _ => return .unmarked

def returnIntent : Parser ReturnIntent := do
  match ← kind with
  | .keyword .kwConst =>
    let _ ← advance
    return if ← eatKeyword .kwRef then .constantReference else .constant
  | .keyword .kwRef => let _ ← advance; return .reference
  | .keyword .kwParam => let _ ← advance; return .parameter
  | .keyword .kwType => let _ ← advance; return .type
  | _ => return .unmarked

def formal : Parser NodeId := do
  let start ← currentSpan
  let intent ← intent
  let name ← expectIdentifier
  let type ← afterSymbol .colon typeExpression
  let init ← afterSymbol .equal expression
  store (.formal name intent type init) start

def formals : Parser (List NodeId) := do
  let _ ← expectSymbol .parenOpen
  listUntil .parenClose formal

def functionBody (statement : Parser Unit) : Parser (Option (List NodeId)) := do
  if ← eatSymbol .semicolon then
    return none
  else if ← isAt (.symbol .braceOpen) then
    let opening ← advance
    return some (← bracedMembers statement opening.span)
  else
    throw (.unexpected "function body or `;`" (← current))

/-- `[extern|export ["name"]] [inline] [override] proc|iter name(formals) [intent] [: type]
[throws] [where condition] { statements } or ;`

Comments within the header have no list to stand in and are dropped. -/
def functionDeclaration (statement : Parser Unit) (visibility : Visibility) (start : Span) :
    Parser Unit := do
  let linkage ← linkage
  let linkageName ← linkageName linkage
  let isInline ← eatKeyword .kwInline
  let isOverride ← eatKeyword .kwOverride
  let kind ← functionKind
  let name ← expectIdentifier
  let formals ← whileParsing "function" name formals
  let returnIntent ← returnIntent
  let returnType ← afterSymbol .colon typeExpression
  let doesThrow ← eatKeyword .kwThrows
  let condition ← if ← eatKeyword .kwWhere then some <$> expression else pure none
  discardComments
  let body ← functionBody statement
  if linkage = .external && body.isSome then
    let message := "extern function `" ++ (← lookup name) ++ "` cannot have a body"
    report ⟨.invalidFunction message, ← spanFrom start, none⟩
  add (.functionDecl
    { name, visibility, linkage, linkageName, kind, returnIntent, isInline, isOverride, doesThrow,
      formals, returnType, condition, body }) start

def variableKind : Parser VariableKind := do
  match (← advance).kind with
  | .keyword .kwConst => return .constant
  | .keyword .kwParam => return .parameter
  | .keyword .kwRef => return .reference
  | _ => return .mutable

def variableDeclaration (visibility : Visibility) (start : Span) : Parser Unit := do
  let kind ← variableKind
  let name ← expectIdentifier
  let type ← afterSymbol .colon typeExpression
  let init ← afterSymbol .equal expression
  add (.variableDecl name visibility kind type init) start
  let _ ← expectSymbol .semicolon

end Parser

end IncrementalFrontend
