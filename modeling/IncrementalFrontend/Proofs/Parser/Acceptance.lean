import IncrementalFrontend.Parser.Text
import IncrementalFrontend.Proofs.Parser.Statements

/-!
The parser accepts exactly its grammar: a text is parsed without diagnostics if and only if it has no
lexical errors and its tokens form a sentence.
-/
namespace IncrementalFrontend

open Grammar

theorem Lexeme.kind_ne_invalid {lexeme : Lexeme} {names names' : Interner} {kind : TokenKind}
    (same : lexeme.meaning names = (.token kind, names')) : kind ≠ .invalid := by
  rintro rfl
  unfold meaning at same
  split at same
  · dsimp only at same
    split at same <;> cases same
  · dsimp only at same
    split at same <;> cases same
  all_goals cases same

namespace TokenList

def kinds (tokens : TokenList) : List TokenKind :=
  tokens.entries.map (·.token.kind)

def word (tokens : TokenList) : List TokenKind :=
  tokens.kinds.takeWhile (· ≠ .endOfFile)

/-- An invalid token comes with an error. -/
theorem invalid_notMem_ofLexemes (stop : Nat) (waiting : List Comment) (lexemes : List Lexeme)
    (names : Interner) (clean : (ofLexemes stop waiting lexemes names).1.errors = []) :
    .invalid ∉ (ofLexemes stop waiting lexemes names).1.kinds := by
  induction lexemes generalizing waiting names with
  | nil => simp [ofLexemes, kinds, Token.endOfFile]
  | cons lexeme rest ih =>
    rw [ofLexemes] at clean ⊢
    split at clean
    · rename_i kind names' meant
      have tail := ih [] names' clean
      simp_all [kinds, (Lexeme.kind_ne_invalid meant).symm]
    · cases clean
    · rename_i comment style isClosed names' meant
      have closed : isClosed = true := by
        by_contra missing
        simp [missing] at clean
      subst closed
      simpa [meant, kinds] using ih _ names' clean

end TokenList

namespace Parser

/-- The parser comes to the end of the tokens. -/
theorem program_ran {source : Source} {before : State}
    (fits : before.cursor.kinds.length < source.budget) :
    ∃ after word, program source before = some (.ok (), after) ∧ after.cursor.kind = .endOfFile ∧
      Ran lasting before sentence {.endOfFile}ᶜ (.ok () : Except ParseError Unit) after word := by
  have parses : Parses lasting source.budget program source before sentence {.endOfFile}ᶜ :=
    parses_program (Nat.le_refl _)
  obtain ⟨⟨outcome, after⟩, ran⟩ := Option.isSome_iff_exists.mp (parses.ends fits)
  obtain ⟨_, rfl⟩ := succeeds_program source before outcome after ran
  obtain ⟨word, ended⟩ := parses.ran _ after ran
  exact ⟨after, word, ran, kind_of_program ran, ended⟩

/-- A word that was read up to the end of the file is all there is before the end. -/
theorem State.Reads.takeWhile_kinds {before after : State} {word : List TokenKind}
    (reads : before.Reads word after) (ended : after.cursor.kind = .endOfFile) :
    before.cursor.kinds.takeWhile (· ≠ .endOfFile) = word := by
  have inside : ∀ kind ∈ word, decide (kind ≠ .endOfFile) = true := fun kind member =>
    decide_eq_true fun same => reads.inside (same ▸ member)
  have nothing : after.cursor.kinds.takeWhile (· ≠ .endOfFile) = [] := by
    rw [Cursor.kind_eq_first] at ended
    cases kinds : after.cursor.kinds with
    | nil => rfl
    | cons kind rest =>
      have first : kind = .endOfFile := by rwa [kinds] at ended
      simp [first]
  rw [reads.kinds, List.takeWhile_append_of_pos inside, nothing, List.append_nil]

/-- Nothing is reported on tokens if and only if they form a sentence. -/
theorem buildTokens_silent_iff (tokens : TokenList) (lines : LineIndex) (names : Interner)
    (builder : Builder) (valid : .invalid ∉ tokens.kinds) :
    (buildTokens tokens.entries lines names builder).diagnostics = builder.diagnostics ↔
      tokens.word ∈ sentence := by
  let source : Source := ⟨lines, names, tokens.entries.length + 2⟩
  let before : State := ⟨.ofTokens tokens.entries, builder⟩
  have kinds : before.cursor.kinds = tokens.kinds := rfl
  have fits : before.cursor.kinds.length < source.budget := by
    simp [kinds, TokenList.kinds, source]
  obtain ⟨after, word, ran, ended, reads, ⟨-, -, sound⟩, complete⟩ := program_ran fits
  have built : buildTokens tokens.entries lines names builder = after.builder := by
    rw [buildTokens]
    simp only [source, before] at ran
    rw [ran]
  have same : tokens.word = word := reads.takeWhile_kinds ended
  rw [built, same]
  refine ⟨fun silent => sound silent (kinds ▸ valid), fun member => ?_⟩
  refine (complete word after.cursor.kinds member reads.kinds fun follows => follows ?_).2.2
  rw [← Cursor.kind_eq_first]
  exact ended

/-- What was reported before stays in front. -/
theorem buildTokens_reports (tokens : List TokenEntry) (lines : LineIndex) (names : Interner)
    (builder : Builder) : builder.diagnostics.toList <+:
      (buildTokens tokens lines names builder).diagnostics.toList := by
  let source : Source := ⟨lines, names, tokens.length + 2⟩
  have fits : (State.mk (.ofTokens tokens) builder).cursor.kinds.length < source.budget := by
    simp [Cursor.kinds, Cursor.ofTokens, source]
  obtain ⟨after, word, ran, -, -, ⟨reports, -, -⟩, -⟩ := program_ran fits
  simp only [source] at ran
  rw [buildTokens, ran]
  exact reports

end Parser

namespace SourceUnit

/-- A text is parsed without diagnostics if and only if it has no lexical errors and its tokens form
a sentence. -/
theorem parse_diagnostics_eq_nil_iff (unit : SourceUnit) (text : String) (names : Interner) :
    (unit.parse text names).1.diagnostics = [] ↔
      (TokenList.ofText text names).1.errors = [] ∧
        (TokenList.ofText text names).1.word ∈ sentence := by
  let tokens := (TokenList.ofText text names).1
  let lines := LineIndex.ofText text
  let lexical := tokens.errors.map fun error =>
    error.diagnostic (lines.location unit.path error.span)
  let start : Builder := { Builder.ofUnit unit with diagnostics := lexical.toArray }
  let finish := Parser.buildTokens tokens.entries lines (TokenList.ofText text names).2 start
  have reports : start.diagnostics.toList <+: finish.diagnostics.toList :=
    Parser.buildTokens_reports ..
  have silent_iff (clean : tokens.errors = []) :
      finish.diagnostics = start.diagnostics ↔ tokens.word ∈ sentence :=
    Parser.buildTokens_silent_iff tokens lines _ start
      (TokenList.invalid_notMem_ofLexemes _ _ _ _ (List.append_eq_nil_iff.mp clean).1)
  change finish.diagnostics.toList = [] ↔ tokens.errors = [] ∧ tokens.word ∈ sentence
  constructor
  · intro none
    rw [none, List.prefix_nil] at reports
    have clean : tokens.errors = [] := List.map_eq_nil_iff.mp reports
    refine ⟨clean, (silent_iff clean).mp (Array.toList_inj.mp ?_)⟩
    rw [none, reports]
  · rintro ⟨clean, member⟩
    rw [(silent_iff clean).mpr member]
    simp [start, lexical, clean]

end SourceUnit

end IncrementalFrontend
