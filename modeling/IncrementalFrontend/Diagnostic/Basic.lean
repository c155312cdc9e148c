import IncrementalFrontend.Diagnostic.Code
import IncrementalFrontend.Source.Location

/-!
Diagnostics are values: what went wrong, how badly, where, and notes on the context.
-/
namespace IncrementalFrontend

inductive Severity where
  | error
  | warning
  | note
deriving DecidableEq, Repr

def Severity.text : Severity → String
  | error => "error"
  | warning => "warning"
  | note => "note"

structure Diagnostic where
  code : DiagnosticCode
  severity : Severity
  message : String
  location : Location
  notes : List String
deriving DecidableEq, Repr

namespace Diagnostic

def error (code : DiagnosticCode) (location : Location) (message : String) : Diagnostic :=
  ⟨code, .error, message, location, []⟩

def withNote (diagnostic : Diagnostic) (note : String) : Diagnostic :=
  { diagnostic with notes := diagnostic.notes ++ [note] }

def isError (diagnostic : Diagnostic) : Bool :=
  diagnostic.severity == .error

def isWarning (diagnostic : Diagnostic) : Bool :=
  diagnostic.severity == .warning

def unexpectedToken (location : Location) (expected found : String) : Diagnostic :=
  error .unexpectedToken location ("expected " ++ expected ++ ", found " ++ found)

def expectedExpression (location : Location) (found : String) : Diagnostic :=
  error .expectedExpression location ("expected expression, found " ++ found)

def unclosedDelimiter (location : Location) (delimiter : String) : Diagnostic :=
  error .unclosedDelimiter location ("unclosed delimiter `" ++ delimiter ++ "`")

def unreadableFile (location : Location) (message : String) : Diagnostic :=
  error .unreadableFile location message

end Diagnostic

end IncrementalFrontend
