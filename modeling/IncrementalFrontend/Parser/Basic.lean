import IncrementalFrontend.Parser.Error
import IncrementalFrontend.Syntax.Builder

/-!
Parsers move a cursor and feed a builder. A failed parser keeps what it did before it failed, so
that a caller can resume from there. Loops and recursion draw on a budget that exceeds the number
of tokens; since each round consumes a token, the budget never runs out.
-/
namespace IncrementalFrontend

namespace Parser

structure Source where
  lines : LineIndex
  names : Interner
  /-- Bounds the rounds of a loop and the depth of a recursion. -/
  budget : Nat

structure State where
  cursor : Cursor
  builder : Builder

end Parser

/-- A parser for `α`. There is no outcome at all if the budget runs out. -/
abbrev Parser (α : Type) :=
  ReaderT Parser.Source (ExceptT ParseError (StateT Parser.State Option)) α

namespace Parser

def exhausted {α : Type} : Parser α :=
  fun _ _ => none

def unroll {α : Type} (body : Parser α → Parser α) : Nat → Parser α
  | 0 => exhausted
  | depth + 1 => fun source state => body (unroll body depth) source state

def recursive {α : Type} (body : Parser α → Parser α) : Parser α := do
  unroll body (← read).budget

inductive Round (σ α : Type) where
  | again (state : σ)
  | done (result : α)

def rounds {σ α : Type} (round : σ → Parser (Round σ α)) : Nat → σ → Parser α
  | 0, _ => exhausted
  | count + 1, state => do
    match ← round state with
    | .again state => rounds round count state
    | .done result => return result

def loop {σ α : Type} (start : σ) (round : σ → Parser (Round σ α)) : Parser α := do
  rounds round (← read).budget start

def cursor : Parser Cursor :=
  return (← get).cursor

def setCursor (cursor : Cursor) : Parser Unit :=
  modify fun state => { state with cursor }

def current : Parser Token :=
  return (← cursor).current

def kind : Parser TokenKind :=
  return (← cursor).kind

def currentSpan : Parser Span :=
  return (← current).span

def isAt (kind : TokenKind) : Parser Bool :=
  return (← cursor).isAt kind

def isAtEnd : Parser Bool :=
  return (← cursor).isAtEnd

def position : Parser Nat :=
  return (← cursor).position

def advance : Parser Token := do
  let cursor ← cursor
  setCursor cursor.advance
  return cursor.current

def eat (kind : TokenKind) : Parser Bool := do
  let (isEaten, cursor) := (← cursor).eat kind
  setCursor cursor
  return isEaten

def eatKeyword (word : Keyword) : Parser Bool :=
  eat (.keyword word)

def eatSymbol (mark : Symbol) : Parser Bool :=
  eat (.symbol mark)

def expect (kind : TokenKind) : Parser Token := do
  match (← cursor).expect kind with
  | .ok (token, cursor) =>
    setCursor cursor
    return token
  | .error error => throw error

def expectKeyword (word : Keyword) : Parser Token :=
  expect (.keyword word)

def expectSymbol (mark : Symbol) : Parser Token :=
  expect (.symbol mark)

def expectIdentifier : Parser Name := do
  match (← cursor).expectIdentifier with
  | .ok ((name, _), cursor) =>
    setCursor cursor
    return name
  | .error error => throw error

def spanFrom (start : Span) : Parser Span :=
  return ⟨start.start, max (← cursor).previousSpan.stop start.stop⟩

def locate (span : Span) : Parser Location :=
  return (← read).lines.location (← get).builder.path span

def build {α : Type} (change : Builder → α × Builder) : Parser α :=
  modifyGet fun state =>
    let (result, builder) := change state.builder
    (result, { state with builder })

def openScope : Parser Unit :=
  build fun builder => ((), builder.openScope)

def closeScope : Parser (List NodeId) :=
  build Builder.closeScope

def attach (id : NodeId) : Parser Unit :=
  build fun builder => ((), builder.attach id)

def store (node : Node) (start : Span) : Parser NodeId := do
  let location ← locate (← spanFrom start)
  build (·.store node location)

def add (node : Node) (start : Span) : Parser Unit := do
  let location ← locate (← spanFrom start)
  let _ ← build (·.add node location)

def reportDiagnostic (diagnostic : Diagnostic) : Parser Unit :=
  build fun builder => ((), builder.report diagnostic)

def report (error : ParseError) : Parser Unit := do
  reportDiagnostic (error.diagnostic (← locate error.span))

def flushComments : Parser Unit := do
  let cursor ← cursor
  setCursor cursor.clearComments
  for comment in cursor.waiting do
    let location ← locate comment.span
    let _ ← build (·.add (.comment comment.text comment.style) location)

def discardComments : Parser Unit := do
  setCursor (← cursor).clearComments

def mapError {α : Type} (change : ParseError → ParseError) (parser : Parser α) : Parser α :=
  tryCatch parser fun error => throw (change error)

def lookup (name : Name) : Parser String :=
  return (← read).names.lookup name

def whileParsing {α : Type} (what : String) (name : Name) (parser : Parser α) : Parser α := do
  let note := "while parsing " ++ what ++ " `" ++ (← lookup name) ++ "`"
  mapError (·.withNote note) parser

def listUntil {α : Type} (close : Symbol) (item : Parser α) : Parser (List α) :=
  loop [] fun items => do
    if ← eatSymbol close then
      return .done items
    let items := items ++ [← item]
    if ← eatSymbol .comma then
      return .again items
    let _ ← expectSymbol close
    return .done items

def afterSymbol {α : Type} (mark : Symbol) (parser : Parser α) : Parser (Option α) := do
  if ← eatSymbol mark then
    return some (← parser)
  else
    return none

end Parser

end IncrementalFrontend
