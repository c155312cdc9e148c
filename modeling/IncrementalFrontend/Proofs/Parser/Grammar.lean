import Mathlib.Computability.Language
import Mathlib.Order.FixedPoints
import Mathlib.Order.CompletePartialOrder
import IncrementalFrontend.Token.Basic

/-!
The grammar, as languages of token kinds. Expressions and statements are the least solutions of
their equations, since each occurs within itself.
-/
namespace IncrementalFrontend

open Computability

namespace Grammar

abbrev keyword (word : Keyword) : Language TokenKind :=
  {[.keyword word]}

abbrev mark (symbol : Symbol) : Language TokenKind :=
  {[.symbol symbol]}

def anyOf (kinds : List TokenKind) : Language TokenKind :=
  {word | ∃ kind ∈ kinds, word = [kind]}

abbrev keywords (words : List Keyword) : Language TokenKind :=
  anyOf (words.map .keyword)

abbrev marks (symbols : List Symbol) : Language TokenKind :=
  anyOf (symbols.map .symbol)

abbrev valued {α : Type} (make : α → TokenKind) : Language TokenKind :=
  {word | ∃ value, word = [make value]}

abbrev maybe (language : Language TokenKind) : Language TokenKind :=
  language + 1

def listed (item : Language TokenKind) : Language TokenKind :=
  maybe (item * (mark .comma * item)∗ * maybe (mark .comma))

section

variable (expression : Language TokenKind)

def primary : Language TokenKind :=
  valued .identifier + (valued .integer + (valued .string + mark .parenOpen * (expression * mark .parenClose)))

def suffix : Language TokenKind :=
  mark .parenOpen * (listed expression * mark .parenClose) + mark .dot * valued .identifier

def suffixed : Language TokenKind :=
  primary expression * (suffix expression)∗

def signed : Language TokenKind :=
  (marks [.minus, .bang])∗ * suffixed expression

def chain (symbols : List Symbol) (operand : Language TokenKind) : Language TokenKind :=
  operand * (marks symbols * operand)∗

def product : Language TokenKind :=
  chain [.star, .slash, .percent] (signed expression)

def sum : Language TokenKind :=
  chain [.plus, .minus] (product expression)

def comparison : Language TokenKind :=
  chain [.less, .lessEqual, .greater, .greaterEqual] (sum expression)

def equality : Language TokenKind :=
  chain [.equalEqual, .notEqual] (comparison expression)

def conjunction : Language TokenKind :=
  chain [.andAnd] (equality expression)

def disjunction : Language TokenKind :=
  chain [.orOr] (conjunction expression)

def assignment : Language TokenKind :=
  disjunction expression * maybe (mark .equal * expression)

end

section

variable {smaller larger : Language TokenKind}

@[gcongr] theorem maybe_mono (le : smaller ≤ larger) : maybe smaller ≤ maybe larger :=
  add_le_add_left le 1

@[gcongr] theorem listed_mono (le : smaller ≤ larger) : listed smaller ≤ listed larger := by
  unfold listed
  gcongr

@[gcongr] theorem chain_mono (symbols : List Symbol) (le : smaller ≤ larger) :
    chain symbols smaller ≤ chain symbols larger := by
  unfold chain
  gcongr

@[gcongr] theorem signed_mono (le : smaller ≤ larger) : signed smaller ≤ signed larger := by
  unfold signed suffixed suffix primary
  gcongr

end

theorem assignment_mono : Monotone assignment := by
  intro smaller larger le
  unfold assignment disjunction conjunction equality comparison sum product
  gcongr

def expression : Language TokenKind :=
  OrderHom.lfp ⟨assignment, assignment_mono⟩

theorem assignment_expression : assignment expression = expression :=
  OrderHom.map_lfp ⟨assignment, assignment_mono⟩

def typed : Language TokenKind :=
  maybe (mark .colon * suffixed expression)

def initialized : Language TokenKind :=
  maybe (mark .equal * expression)

def constant : Language TokenKind :=
  keyword .kwConst * maybe (keyword .kwRef)

def intentAmong (words : List Keyword) : Language TokenKind :=
  maybe (constant + keywords (.kwRef :: words))

def intent : Language TokenKind :=
  intentAmong [.kwIn, .kwOut, .kwInout, .kwParam, .kwType]

def returnIntent : Language TokenKind :=
  intentAmong [.kwParam, .kwType]

def formal : Language TokenKind :=
  intent * valued .identifier * typed * initialized

def signature : Language TokenKind :=
  maybe (keyword .kwInline) * maybe (keyword .kwOverride) *
    keywords [.kwProc, .kwIter] * valued .identifier *
    mark .parenOpen * listed formal * mark .parenClose *
    returnIntent * typed * maybe (keyword .kwThrows) * maybe (keyword .kwWhere * expression)

def enumDecl : Language TokenKind :=
  keyword .kwEnum * valued .identifier *
    mark .braceOpen * listed (valued .identifier * initialized) * mark .braceClose

def variableDecl : Language TokenKind :=
  keywords [.kwVar, .kwConst, .kwParam, .kwRef] *
    valued .identifier * typed * initialized * mark .semicolon

section

variable (statement : Language TokenKind)

def block : Language TokenKind :=
  mark .braceOpen * statement∗ * mark .braceClose

def moduleDecl : Language TokenKind :=
  maybe (keyword .kwPrototype) * keyword .kwModule * valued .identifier * block statement

def functionDecl : Language TokenKind :=
  keyword .kwExtern * maybe (valued .string) * signature * mark .semicolon +
    maybe (keyword .kwExport * maybe (valued .string)) * signature *
      (block statement + mark .semicolon)

def declaration : Language TokenKind :=
  moduleDecl statement + enumDecl + functionDecl statement + variableDecl

def construct : Language TokenKind :=
  maybe (keywords [.kwPublic, .kwPrivate]) * declaration statement +
    block statement +
    keyword .kwReturn * maybe expression * mark .semicolon +
    mark .semicolon +
    expression * mark .semicolon

end

theorem construct_mono : Monotone construct := by
  intro smaller larger le
  unfold construct declaration functionDecl moduleDecl block
  gcongr

def statement : Language TokenKind :=
  OrderHom.lfp ⟨construct, construct_mono⟩

theorem construct_statement : construct statement = statement :=
  OrderHom.map_lfp ⟨construct, construct_mono⟩

/-- Sentences are what a text without errors consists of. -/
def sentence : Language TokenKind :=
  statement∗

end Grammar

end IncrementalFrontend
