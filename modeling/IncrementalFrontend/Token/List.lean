import IncrementalFrontend.Name.Interner
import IncrementalFrontend.Text.Numeral
import IncrementalFrontend.Token.Lexeme

/-!
The tokens of a text: every lexeme becomes a token, a comment in front of the next token, or an
invalid token with an error, and one token at the end of the text closes the list.
-/
namespace IncrementalFrontend

inductive LexError.Kind where
  | invalidCharacter
  | unterminatedString
  | unterminatedComment
  | integerOverflow
  /-- A lexeme does not fit into a span, and nothing behind it is read. -/
  | sourceTooLarge
deriving DecidableEq, Repr

structure LexError where
  kind : LexError.Kind
  span : Span
deriving DecidableEq, Repr

def LexError.tooLarge : LexError :=
  ⟨.sourceTooLarge, .point (Span.cutOffset Span.offsetBound)⟩

def LexError.Kind.message : LexError.Kind → String
  | invalidCharacter => "invalid character in source"
  | unterminatedString => "unterminated string literal"
  | unterminatedComment => "unterminated block comment"
  | integerOverflow => "integer literal is too large"
  | sourceTooLarge => "source file is too large"

structure TokenList where
  entries : List TokenEntry
  errors : List LexError
deriving DecidableEq

namespace Lexeme

/-- The content of a string literal. Newline, tab, backslash and quote have an escape; any other
backslash stands for itself. -/
def unescape : List Char → List Char
  | [] => []
  | '\\' :: [] => ['\\']
  | '\\' :: 'n' :: rest => '\n' :: unescape rest
  | '\\' :: 't' :: rest => '\t' :: unescape rest
  | '\\' :: '\\' :: rest => '\\' :: unescape rest
  | '\\' :: '"' :: rest => '"' :: unescape rest
  | '\\' :: c :: rest => '\\' :: c :: unescape rest
  | c :: rest => c :: unescape rest

inductive Meaning where
  | token (kind : TokenKind)
  | broken (error : LexError.Kind)
  | comment (text : Name) (style : CommentStyle) (isClosed : Bool)

def integerValue (text : List Char) : Nat :=
  Text.digitsValue (text.filter (· ≠ '_'))

def integerBound : Nat := 18446744073709551616

def meaning (lexeme : Lexeme) (names : Interner) : Meaning × Interner :=
  match lexeme.shape with
  | .word =>
    let word := String.ofList lexeme.text
    match Keyword.ofText? word with
    | some keyword => (.token (.keyword keyword), names)
    | none =>
      let (name, names) := names.intern word
      (.token (.identifier name), names)
  | .digits =>
    let value := integerValue lexeme.text
    if value < integerBound then (.token (.integer (UInt64.ofNat value)), names)
    else (.broken .integerOverflow, names)
  | .quoted true =>
    let (content, names) := names.intern (String.ofList (unescape lexeme.text.tail.dropLast))
    (.token (.string content), names)
  | .quoted false => (.broken .unterminatedString, names)
  | .symbol mark => (.token (.symbol mark), names)
  | .lineComment =>
    let (text, names) := names.intern (String.ofList lexeme.text)
    (.comment text .line true, names)
  | .blockComment isClosed =>
    let (text, names) := names.intern (String.ofList lexeme.text)
    (.comment text .block isClosed, names)
  | .stray => (.broken .invalidCharacter, names)

def fits (lexeme : Lexeme) : Bool :=
  (Span.ofRange lexeme.span.start lexeme.span.stop).isOk

end Lexeme

namespace TokenList

def ofLexemes (stop : Nat) : List Comment → List Lexeme → Interner → TokenList × Interner
  | waiting, [], names => (⟨[⟨.endOfFile (.point stop), waiting⟩], []⟩, names)
  | waiting, lexeme :: rest, names =>
    match lexeme.meaning names with
    | (.token kind, names) =>
      let (tokens, names) := ofLexemes stop [] rest names
      (⟨⟨⟨kind, lexeme.span⟩, waiting⟩ :: tokens.entries, tokens.errors⟩, names)
    | (.broken error, names) =>
      let (tokens, names) := ofLexemes stop [] rest names
      (⟨⟨⟨.invalid, lexeme.span⟩, waiting⟩ :: tokens.entries,
        ⟨error, lexeme.span⟩ :: tokens.errors⟩, names)
    | (.comment text style isClosed, names) =>
      let (tokens, names) := ofLexemes stop (waiting ++ [⟨text, style, lexeme.span⟩]) rest names
      (⟨tokens.entries,
        if isClosed then tokens.errors
        else ⟨.unterminatedComment, lexeme.span⟩ :: tokens.errors⟩, names)

/-- The tokens of a text, its names interned in the order of the text. Lexing stops in front of a
lexeme that does not fit into a span. -/
def ofText (text : String) (names : Interner) : TokenList × Interner :=
  let lexemes := Lexeme.scan 0 text.toList
  let read := ofLexemes (Span.cutOffset text.utf8ByteSize) [] (lexemes.takeWhile (·.fits)) names
  (⟨read.1.entries, read.1.errors ++ if lexemes.all (·.fits) then [] else [.tooLarge]⟩, read.2)

end TokenList

end IncrementalFrontend
