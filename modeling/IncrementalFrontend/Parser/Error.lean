import IncrementalFrontend.Diagnostic.Basic
import IncrementalFrontend.Token.Cursor

/-!
Syntax errors: what was required, which token stood there instead, and the diagnostic to report.
-/
namespace IncrementalFrontend

inductive ParseError.Kind where
  | unexpectedToken (expected : String) (found : TokenKind)
  | expectedExpression (found : TokenKind)
  | expectedIdentifier (found : TokenKind)
  | expectedType (found : TokenKind)
  | invalidFunction (message : String)
deriving DecidableEq, Repr

structure ParseError where
  kind : ParseError.Kind
  span : Span
  note : Option String
deriving DecidableEq, Repr

namespace ParseError

def Kind.code : Kind → DiagnosticCode
  | unexpectedToken .. => .unexpectedToken
  | expectedExpression _ => .expectedExpression
  | expectedIdentifier _ => .expectedIdentifier
  | expectedType _ => .expectedType
  | invalidFunction _ => .invalidFunction

def Kind.message : Kind → String
  | unexpectedToken expected found => "expected " ++ expected ++ ", found " ++ found.description
  | expectedExpression found => "expected expression, found " ++ found.description
  | expectedIdentifier found => "expected identifier, found " ++ found.description
  | expectedType found => "expected type, found " ++ found.description
  | invalidFunction message => message

def unexpected (expected : String) (found : Token) : ParseError :=
  ⟨.unexpectedToken expected found.kind, found.span, none⟩

def noExpression (found : Token) : ParseError :=
  ⟨.expectedExpression found.kind, found.span, none⟩

def noIdentifier (found : Token) : ParseError :=
  ⟨.expectedIdentifier found.kind, found.span, none⟩

def inTypePosition (error : ParseError) : ParseError :=
  match error.kind with
  | .expectedExpression found => { error with kind := .expectedType found }
  | _ => error

def withNote (error : ParseError) (note : String) : ParseError :=
  { error with note := some note }

def found? (error : ParseError) : Option TokenKind :=
  match error.kind with
  | .unexpectedToken _ found | .expectedExpression found | .expectedIdentifier found
  | .expectedType found => some found
  | .invalidFunction _ => none

def message (error : ParseError) : String :=
  error.kind.message

def diagnostic (error : ParseError) (location : Location) : Diagnostic :=
  ⟨error.kind.code, .error, error.message, location, error.note.toList⟩

end ParseError

namespace Cursor

def eat (cursor : Cursor) (kind : TokenKind) : Bool × Cursor :=
  if cursor.isAt kind then (true, cursor.advance) else (false, cursor)

def expect (cursor : Cursor) (kind : TokenKind) : Except ParseError (Token × Cursor) :=
  if cursor.isAt kind then .ok (cursor.current, cursor.advance)
  else .error (.unexpected kind.description cursor.current)

def expectIdentifier (cursor : Cursor) : Except ParseError ((Name × Span) × Cursor) :=
  match cursor.kind with
  | .identifier name => .ok ((name, cursor.current.span), cursor.advance)
  | _ => .error (.noIdentifier cursor.current)

end Cursor

end IncrementalFrontend
