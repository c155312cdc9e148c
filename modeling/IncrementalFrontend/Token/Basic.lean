import IncrementalFrontend.Name.Basic
import IncrementalFrontend.Source.Span

/-!
Tokens: keywords, symbols, literals and identifiers, each with its span, and the comments that
stand in front of a token.
-/
namespace IncrementalFrontend

inductive Keyword where
  | kwModule | kwPrototype | kwEnum | kwProc | kwIter
  | kwVar | kwConst | kwParam | kwRef | kwType
  | kwPublic | kwPrivate | kwExtern | kwExport | kwInline | kwOverride
  | kwIn | kwOut | kwInout
  | kwReturn | kwThrows | kwWhere
deriving DecidableEq, Repr

namespace Keyword

def text : Keyword → String
  | kwModule => "module" | kwPrototype => "prototype" | kwEnum => "enum"
  | kwProc => "proc" | kwIter => "iter"
  | kwVar => "var" | kwConst => "const" | kwParam => "param" | kwRef => "ref" | kwType => "type"
  | kwPublic => "public" | kwPrivate => "private" | kwExtern => "extern" | kwExport => "export"
  | kwInline => "inline" | kwOverride => "override"
  | kwIn => "in" | kwOut => "out" | kwInout => "inout"
  | kwReturn => "return" | kwThrows => "throws" | kwWhere => "where"

def all : List Keyword :=
  [kwModule, kwPrototype, kwEnum, kwProc, kwIter, kwVar, kwConst, kwParam, kwRef, kwType,
    kwPublic, kwPrivate, kwExtern, kwExport, kwInline, kwOverride, kwIn, kwOut, kwInout,
    kwReturn, kwThrows, kwWhere]

def ofText? (word : String) : Option Keyword :=
  all.find? (·.text == word)

theorem ofText?_text (word : Keyword) : ofText? word.text = some word := by
  cases word <;> decide

/-- Keywords that can begin a declaration. `ref` is not among them, though it begins a variable. -/
def startsDeclaration : Keyword → Bool
  | kwModule | kwPrototype | kwEnum | kwProc | kwIter | kwVar | kwConst | kwParam
  | kwPublic | kwPrivate | kwExtern | kwExport | kwInline | kwOverride => true
  | _ => false

end Keyword

inductive Symbol where
  | parenOpen | parenClose | braceOpen | braceClose | bracketOpen | bracketClose
  | comma | colon | semicolon | dot
  | equalEqual | equal | notEqual | lessEqual | less | greaterEqual | greater
  | plus | minus | star | slash | percent | bang | andAnd | orOr
deriving DecidableEq, Repr

namespace Symbol

def text : Symbol → String
  | parenOpen => "(" | parenClose => ")" | braceOpen => "\x7b" | braceClose => "\x7d"
  | bracketOpen => "[" | bracketClose => "]"
  | comma => "," | colon => ":" | semicolon => ";" | dot => "."
  | equalEqual => "==" | equal => "=" | notEqual => "!=" | lessEqual => "<=" | less => "<"
  | greaterEqual => ">=" | greater => ">"
  | plus => "+" | minus => "-" | star => "*" | slash => "/" | percent => "%" | bang => "!"
  | andAnd => "&&" | orOr => "||"

def all : List Symbol :=
  [equalEqual, notEqual, lessEqual, greaterEqual, andAnd, orOr,
    parenOpen, parenClose, braceOpen, braceClose, bracketOpen, bracketClose,
    comma, colon, semicolon, dot, equal, less, greater, plus, minus, star, slash, percent, bang]

def leading? (cs : List Char) : Option Symbol :=
  all.find? (·.text.toList.isPrefixOf cs)

end Symbol

inductive TokenKind where
  | keyword (word : Keyword)
  | symbol (mark : Symbol)
  | integer (value : UInt64)
  | string (content : Name)
  | identifier (name : Name)
  | invalid
  | endOfFile
deriving DecidableEq, Repr

namespace TokenKind

def description : TokenKind → String
  | keyword word => "`" ++ word.text ++ "`"
  | symbol mark => "`" ++ mark.text ++ "`"
  | integer _ => "integer literal"
  | string _ => "string literal"
  | identifier _ => "identifier"
  | invalid => "invalid token"
  | endOfFile => "end of file"

/-- Whether parsing may resume at the token after an error. -/
def startsDeclaration : TokenKind → Bool
  | keyword word => word.startsDeclaration
  | _ => false

end TokenKind

structure Token where
  kind : TokenKind
  span : Span
deriving DecidableEq, Repr

def Token.endOfFile (span : Span) : Token :=
  ⟨.endOfFile, span⟩

inductive CommentStyle where
  | line
  | block
deriving DecidableEq, Repr

structure Comment where
  text : Name
  style : CommentStyle
  span : Span
deriving DecidableEq, Repr

structure TokenEntry where
  token : Token
  comments : List Comment
deriving DecidableEq, Repr

end IncrementalFrontend
