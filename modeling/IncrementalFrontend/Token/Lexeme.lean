import IncrementalFrontend.Token.Basic

/-!
Lexemes: the longest pieces of a text that have a shape of their own. Every character that is not
blank belongs to exactly one lexeme, and malformed text has shapes too, so scanning never fails.
-/
namespace IncrementalFrontend

inductive Lexeme.Shape where
  | word
  | digits
  | quoted (isClosed : Bool)
  | symbol (mark : Symbol)
  | lineComment
  | blockComment (isClosed : Bool)
  | stray
deriving DecidableEq, Repr

structure Lexeme where
  shape : Lexeme.Shape
  text : List Char
  span : Span
deriving DecidableEq, Repr

namespace Lexeme

def isBlank (c : Char) : Bool :=
  c == ' ' || c == '\t' || c == '\r' || c == '\n' || c == '\x0c'

def isWordStart (c : Char) : Bool :=
  c.isAlpha || c == '_'

def isWordPart (c : Char) : Bool :=
  isWordStart c || c.isDigit || c == '$'

def isDigitPart (c : Char) : Bool :=
  c.isDigit || c == '_'

/-- Length of the rest of a string literal after its opening quote, and whether a quote closes it.
A backslash takes the next character with it; neither may be a newline. -/
def quotedRest : List Char → Nat × Bool
  | [] => (0, false)
  | '"' :: _ => (1, true)
  | '\n' :: _ => (0, false)
  | '\\' :: rest =>
    match rest with
    | [] => (0, false)
    | c :: rest =>
      if c = '\n' then (0, false)
      else
        let (length, isClosed) := quotedRest rest
        (length + 2, isClosed)
  | _ :: rest =>
    let (length, isClosed) := quotedRest rest
    (length + 1, isClosed)

def commentRest (depth : Nat) : List Char → Nat × Bool
  | [] => (0, false)
  | '/' :: '*' :: rest =>
    let (length, isClosed) := commentRest (depth + 1) rest
    (length + 2, isClosed)
  | '*' :: '/' :: rest =>
    match depth with
    | 0 => (2, true)
    | outer + 1 =>
      let (length, isClosed) := commentRest outer rest
      (length + 2, isClosed)
  | _ :: rest =>
    let (length, isClosed) := commentRest depth rest
    (length + 1, isClosed)

def shapeOf (c : Char) (rest : List Char) : Shape × Nat :=
  if isWordStart c then (.word, (rest.takeWhile isWordPart).length)
  else if c.isDigit then (.digits, (rest.takeWhile isDigitPart).length)
  else if c = '"' then
    let (length, isClosed) := quotedRest rest
    (.quoted isClosed, length)
  else if c = '/' ∧ rest.head? = some '/' then
    (.lineComment, (rest.takeWhile (· ≠ '\n')).length)
  else if c = '/' ∧ rest.head? = some '*' then
    let (length, isClosed) := commentRest 0 rest.tail
    (.blockComment isClosed, length + 1)
  else
    match Symbol.leading? (c :: rest) with
    | some mark => (.symbol mark, mark.text.length - 1)
    | none => (.stray, 0)

def byteSize : List Char → Nat
  | [] => 0
  | c :: rest => c.utf8Size + byteSize rest

@[simp] theorem byteSize_append (front back : List Char) :
    byteSize (front ++ back) = byteSize front + byteSize back := by
  induction front with
  | nil => simp [byteSize]
  | cons c rest ih => simp [byteSize, ih]; omega

def scan (offset : Nat) : List Char → List Lexeme
  | [] => []
  | c :: rest =>
    if isBlank c then scan (offset + c.utf8Size) rest
    else
      let (shape, length) := shapeOf c rest
      let text := c :: rest.take length
      let stop := offset + byteSize text
      ⟨shape, text, ⟨offset, stop⟩⟩ :: scan stop (rest.drop length)
termination_by cs => cs.length
decreasing_by
  · simp
  · simp only [List.length_drop, List.length_cons]; omega

end Lexeme

end IncrementalFrontend
