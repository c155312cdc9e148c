import IncrementalFrontend.Parser.Declaration

/-!
Statements and recovery. A statement that fails becomes an erroneous node, its members so far stay,
and parsing goes on behind it; a whole text is a list of statements.
-/
namespace IncrementalFrontend

namespace Parser

/-- Skips tokens after an error in a statement that began at token `start`, with some of its braces
still open. Stops after a semicolon or after the brace that closes the last open one, and before a
brace that closes none, a declaration further on, or the end of the file. -/
def skip (start openBraces : Nat) : Parser Unit :=
  loop openBraces fun openBraces => do
    match ← kind, openBraces with
    | .endOfFile, _ => return .done ()
    | .symbol .semicolon, 0 => let _ ← advance; return .done ()
    | .symbol .braceClose, 0 => return .done ()
    | .symbol .braceClose, 1 => let _ ← advance; return .done ()
    | .symbol .braceClose, outer + 2 => let _ ← advance; return .again (outer + 1)
    | .symbol .braceOpen, _ => let _ ← advance; return .again (openBraces + 1)
    | kind, 0 =>
      if kind.startsDeclaration && start < (← position) then
        return .done ()
      let _ ← advance
      return .again 0
    | _, _ => let _ ← advance; return .again openBraces

/-- Resumes after an error in a statement that began at token `start` with `depth` scopes open. An
error at an invalid token was reported when the text was split into tokens. At least one token is
consumed. -/
def recover (start : Nat) (startSpan : Span) (depth : Nat) (error : ParseError) : Parser Unit := do
  unless error.found? = some .invalid do
    report error
  let openBraces ← build (·.unwindTo depth)
  skip start openBraces
  if (← position) = start then
    let _ ← advance
  add .erroneous startSpan

def visibility : Parser Visibility := do
  if ← eatKeyword .kwPublic then
    return .publicly
  else if ← eatKeyword .kwPrivate then
    return .privately
  else
    return .unmarked

def blockStatement (statement : Parser Unit) : Parser Unit := do
  let opening ← advance
  let members ← bracedMembers statement opening.span
  add (.block members) opening.span

def returnStatement : Parser Unit := do
  let start := (← advance).span
  let value ← if ← isAt (.symbol .semicolon) then pure none else some <$> expression
  add (.result value) start
  let _ ← expectSymbol .semicolon

def expressionStatement : Parser Unit := do
  attach (← expression)
  let _ ← expectSymbol .semicolon

def construct (statement : Parser Unit) : Parser Unit := do
  let start ← currentSpan
  let visibility ← visibility
  match ← kind with
  | .keyword .kwModule | .keyword .kwPrototype => moduleDeclaration statement visibility start
  | .keyword .kwEnum => enumDeclaration visibility start
  | .keyword .kwExtern | .keyword .kwExport | .keyword .kwInline | .keyword .kwOverride
  | .keyword .kwProc | .keyword .kwIter => functionDeclaration statement visibility start
  | .keyword .kwVar | .keyword .kwConst | .keyword .kwParam | .keyword .kwRef =>
    variableDeclaration visibility start
  | kind =>
    if visibility ≠ .unmarked then
      throw (.unexpected "declaration" (← current))
    match kind with
    | .symbol .braceOpen => blockStatement statement
    | .keyword .kwReturn => returnStatement
    | .symbol .semicolon => let _ ← advance
    | _ => expressionStatement

def recoveringStatement (statement : Parser Unit) : Parser Unit := do
  let start ← position
  let startSpan ← currentSpan
  let depth := (← get).builder.depth
  tryCatch (construct statement) (recover start startSpan depth)

def statement : Parser Unit :=
  recursive recoveringStatement

def program : Parser Unit :=
  loop () fun _ => do
    flushComments
    if ← isAtEnd then
      return .done ()
    statement
    return .again ()

end Parser

end IncrementalFrontend
