import IncrementalFrontend.Parser.Statement

/-!
From the text of a unit to its syntax tree and the diagnostics on it, the lexical ones first.
-/
namespace IncrementalFrontend

def LexError.Kind.code : LexError.Kind → DiagnosticCode
  | invalidCharacter => .invalidCharacter
  | unterminatedString => .unterminatedString
  | unterminatedComment => .unterminatedComment
  | integerOverflow => .invalidNumber
  | sourceTooLarge => .unreadableFile

def LexError.diagnostic (error : LexError) (location : Location) : Diagnostic :=
  .error error.kind.code location error.kind.message

namespace Parser

def buildTokens (tokens : List TokenEntry) (lines : LineIndex) (names : Interner)
    (builder : Builder) : Builder :=
  let source : Source := ⟨lines, names, tokens.length + 2⟩
  match program source ⟨.ofTokens tokens, builder⟩ with
  | some (_, state) => state.builder
  | none => builder

end Parser

structure ParsedText where
  tree : SyntaxTree
  diagnostics : List Diagnostic

namespace SourceUnit

def parse (unit : SourceUnit) (text : String) (names : Interner) : ParsedText × Interner :=
  let (tokens, names) := TokenList.ofText text names
  let lines := LineIndex.ofText text
  let lexical := tokens.errors.map fun error =>
    error.diagnostic (lines.location unit.path error.span)
  let start : Builder := { Builder.ofUnit unit with diagnostics := lexical.toArray }
  let builder := Parser.buildTokens tokens.entries lines names start
  (⟨builder.tree, builder.diagnostics.toList⟩, names)

end SourceUnit

end IncrementalFrontend
