/-!
Codes of diagnostics. The first digit of a code tells the phase that reports it: 0 for lexing and
input, 1 for parsing, 9 for the query engine.
-/
namespace IncrementalFrontend

inductive DiagnosticCode where
  | unterminatedString
  | invalidCharacter
  | invalidNumber
  | unterminatedComment
  | unreadableFile
  | unexpectedToken
  | expectedExpression
  | unclosedDelimiter
  | expectedIdentifier
  | expectedType
  | invalidFunction
  | engineFailure
deriving DecidableEq, Repr

namespace DiagnosticCode

def all : List DiagnosticCode :=
  [unterminatedString, invalidCharacter, invalidNumber, unterminatedComment, unreadableFile,
    unexpectedToken, expectedExpression, unclosedDelimiter, expectedIdentifier, expectedType,
    invalidFunction, engineFailure]

def text : DiagnosticCode → String
  | unterminatedString => "E0001"
  | invalidCharacter => "E0002"
  | invalidNumber => "E0003"
  | unterminatedComment => "E0004"
  | unreadableFile => "E0100"
  | unexpectedToken => "E1001"
  | expectedExpression => "E1002"
  | unclosedDelimiter => "E1003"
  | expectedIdentifier => "E1004"
  | expectedType => "E1005"
  | invalidFunction => "E1006"
  | engineFailure => "E9001"

def ofText? (text : String) : Option DiagnosticCode :=
  all.find? (·.text == text)

theorem ofText?_text (code : DiagnosticCode) : ofText? code.text = some code := by
  cases code <;> decide

def description : DiagnosticCode → String
  | unterminatedString => "unterminated string literal"
  | invalidCharacter => "invalid character in source"
  | invalidNumber => "invalid number literal"
  | unterminatedComment => "unterminated block comment"
  | unreadableFile => "file could not be read"
  | unexpectedToken => "unexpected token"
  | expectedExpression => "expected expression"
  | unclosedDelimiter => "unclosed delimiter"
  | expectedIdentifier => "expected identifier"
  | expectedType => "expected type"
  | invalidFunction => "invalid function declaration"
  | engineFailure => "internal query engine error"

def isLexical : DiagnosticCode → Bool
  | unterminatedString | invalidCharacter | invalidNumber | unterminatedComment => true
  | _ => false

def isSyntactic : DiagnosticCode → Bool
  | unexpectedToken | expectedExpression | unclosedDelimiter | expectedIdentifier | expectedType
  | invalidFunction => true
  | _ => false

end DiagnosticCode

end IncrementalFrontend
