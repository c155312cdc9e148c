import IncrementalFrontend.Proofs.Parser.Declarations

/-!
The parsers of statements and of whole texts parse the languages of statements and of sentences.
With recovery they never fail.
-/
namespace IncrementalFrontend

open Grammar Computability

namespace Parser

variable {room : Nat} {source : Source} {before : State}

/-- Which tokens a language may begin with, told by where it may not be read. -/
theorem Opens.apart {language : Language TokenKind} {starts : TokenKind → Bool} {avoid : Set TokenKind}
    {kind : TokenKind} (opens : Opens language starts) (current : before.cursor.kind = kind)
    (other : starts kind = false) : Precedes language avoid {before.cursor.kind} :=
  opens.precedes fun _ same => same ▸ current ▸ other

theorem parses_returnStatement (fits : room ≤ source.budget)
    (current : before.cursor.kind = .keyword .kwReturn) :
    Parses nesting room returnStatement source before
      (keyword .kwReturn * maybe Grammar.expression * mark .semicolon) ∅ := by
  rw [mul_assoc, maybe, add_mul, one_mul]
  refine .advance rfl current fun mid _ _ => .peekAt ?_
  by_cases ended : mid.cursor.kind = .symbol .semicolon
  · rw [if_pos (Cursor.isAt_iff.mpr ended)]
    refine .right ?_ (opens_expression.mul.apart ended rfl)
    refine .idle (idle_pure none) fun value mid _ _ => .idle (idle_add _ _) fun _ mid _ _ => ?_
    exact .andPure (.expect rfl) fun _ => ()
  · rw [if_neg (Cursor.isAt_iff.not.mpr ended)]
    refine .left ?_ (.last fun same => ended (Set.mem_singleton_iff.mp same).symm)
    refine .bind ((parses_expression (by omega)).map some) (fun value mid word _ _ _ _ => ?_)
      (.last (by decide))
    refine .idle (idle_add _ _) fun _ mid _ _ => ?_
    exact .andPure (.expect rfl) fun _ => ()

theorem parses_expressionStatement (fits : room ≤ source.budget) :
    Parses nesting room expressionStatement source before
      (Grammar.expression * mark .semicolon) ∅ := by
  refine .bind (parses_expression fits) (fun node mid word _ _ _ _ => ?_) (.last (by decide))
  exact .idle (idle_attach node) fun _ mid _ _ => .andPure (.expect rfl) fun _ => ()

section

variable {statement : Parser Unit} {language : Language TokenKind} (fits : room ≤ source.budget)
  (statements : ParsesMembers (room - 1) statement source language)
include fits statements

theorem parses_blockStatement (current : before.cursor.kind = .symbol .braceOpen) :
    Parses nesting room (blockStatement statement) source before (block language) ∅ := by
  have shape : block language = mark .braceOpen * (language∗ * mark .braceClose) * 1 := by
    rw [block, mul_assoc, mul_one]
  rw [shape]
  exact .braced current rfl (stopsAtBrace statement) (parses_members fits statements)
    fun members mid => .of_idle (idle_add _ _)

end

def afterVisibility (statement : Parser Unit) (start : Span) (visibility : Visibility) :
    Parser Unit := do
  match ← kind with
  | .keyword .kwModule | .keyword .kwPrototype => moduleDeclaration statement visibility start
  | .keyword .kwEnum => enumDeclaration visibility start
  | .keyword .kwExtern | .keyword .kwExport | .keyword .kwInline | .keyword .kwOverride
  | .keyword .kwProc | .keyword .kwIter => functionDeclaration statement visibility start
  | .keyword .kwVar | .keyword .kwConst | .keyword .kwParam | .keyword .kwRef =>
    variableDeclaration visibility start
  | kind =>
    if visibility ≠ .unmarked then
      throw (.unexpected "declaration" (← current))
    match kind with
    | .symbol .braceOpen => blockStatement statement
    | .keyword .kwReturn => returnStatement
    | .symbol .semicolon => let _ ← advance
    | _ => expressionStatement

theorem construct_eq (statement : Parser Unit) : construct statement = (do
    let start ← currentSpan
    let visibility ← visibility
    afterVisibility statement start visibility) :=
  rfl

def moduleMarks : List TokenKind :=
  [.keyword .kwPrototype, .keyword .kwModule]

def enumMarks : List TokenKind :=
  [.keyword .kwEnum]

def functionMarks : List TokenKind :=
  .keyword .kwExtern :: .keyword .kwExport :: signatureMarks

def variableMarks : List TokenKind :=
  [.kwVar, .kwConst, .kwParam, .kwRef].map .keyword

section

variable (language : Language TokenKind)

theorem opens_moduleDecl : Opens (moduleDecl language) (· ∈ moduleMarks) := by
  simp only [moduleDecl, mul_assoc]
  exact .maybe_mul (.token rfl) (.mul (.token rfl))

theorem opens_enumDecl : Opens enumDecl (· ∈ enumMarks) := by
  simp only [enumDecl, mul_assoc]
  exact .mul (.token rfl)

theorem opens_functionDecl : Opens (functionDecl language) (· ∈ functionMarks) := by
  have signed : Opens signature (· ∈ functionMarks) := by
    simp only [signature, mul_assoc]
    exact .maybe_mul (.token rfl) (.maybe_mul (.token rfl) (.mul (.anyOf (by decide))))
  simp only [functionDecl, mul_assoc]
  exact .add (.mul (.token rfl)) (.maybe_mul (.mul (.token rfl)) signed.mul)

theorem opens_variableDecl : Opens variableDecl (· ∈ variableMarks) := by
  simp only [variableDecl, mul_assoc]
  exact .mul (.anyOf (by decide))

def declarationMarks : List TokenKind :=
  moduleMarks ++ enumMarks ++ functionMarks ++ variableMarks

theorem opens_declaration : Opens (declaration language) (· ∈ declarationMarks) := by
  refine .add (.add (.add ?_ ?_) ?_) ?_
  · exact (opens_moduleDecl language).mono (by simp_all [declarationMarks])
  · exact opens_enumDecl.mono (by simp_all [declarationMarks])
  · exact (opens_functionDecl language).mono (by simp_all [declarationMarks])
  · exact opens_variableDecl.mono (by simp_all [declarationMarks])

def plainStatement : Language TokenKind :=
  block language + (keyword .kwReturn * maybe Grammar.expression * mark .semicolon +
    (mark .semicolon + Grammar.expression * mark .semicolon))

def startsPlainStatement : TokenKind → Bool
  | .symbol .braceOpen | .keyword .kwReturn | .symbol .semicolon => true
  | kind => startsExpression kind

theorem opens_plainStatement : Opens (plainStatement language) startsPlainStatement := by
  simp only [plainStatement, block, mul_assoc]
  refine .add (.mul (.token rfl)) (.add (.mul (.token rfl)) (.add (.token rfl) (.mul ?_)))
  refine opens_expression.mono fun kind start => ?_
  unfold startsPlainStatement
  split <;> first | rfl | exact start

def startsUnmarked (kind : TokenKind) : Bool :=
  kind ∈ declarationMarks || startsPlainStatement kind

theorem opens_unmarked :
    Opens (declaration language + plainStatement language) startsUnmarked :=
  .add ((opens_declaration language).mono (by simp_all [startsUnmarked]))
    ((opens_plainStatement language).mono (by simp_all [startsUnmarked]))

theorem construct_shape : Grammar.construct language = keyword .kwPublic * declaration language +
    (keyword .kwPrivate * declaration language +
      (declaration language + plainStatement language)) := by
  simp only [Grammar.construct, keywords, List.map, anyOf_cons, anyOf_nil, maybe, plainStatement]
  noncomm_ring

end

section

variable {statement : Parser Unit} {language : Language TokenKind} (fits : room ≤ source.budget)
  (statements : ParsesMembers (room - 1) statement source language)
include fits statements

theorem parses_declaration (start : Span) (visibility : Visibility) {others : Language TokenKind}
    {starts : TokenKind → Bool} (opens : Opens others starts)
    (apart : ∀ kind ∈ declarationMarks, starts kind = false)
    (parses : before.cursor.kind ∉ declarationMarks →
      Parses nesting room (afterVisibility statement start visibility) source before others ∅) :
    Parses nesting room (afterVisibility statement start visibility) source before
      (declaration language + others) ∅ := by
  by_cases declares : before.cursor.kind ∈ declarationMarks
  · refine .left ?_ (opens.precedes fun kind same => same ▸ apart _ declares)
    unfold afterVisibility
    refine .peekKind ?_
    split
    iterate 2
      rename_i current
      refine .left (.left (.left (parses_moduleDeclaration fits statements visibility start) ?_) ?_) ?_
      · exact opens_enumDecl.apart current rfl
      · exact (opens_functionDecl language).apart current rfl
      · exact opens_variableDecl.apart current rfl
    · rename_i current
      refine .left (.left (.right (parses_enumDeclaration fits current visibility start) ?_) ?_) ?_
      · exact (opens_moduleDecl language).apart current rfl
      · exact (opens_functionDecl language).apart current rfl
      · exact opens_variableDecl.apart current rfl
    iterate 6
      rename_i current
      refine .left (.right (parses_functionDeclaration fits statements visibility start) ?_) ?_
      · exact .add ((opens_moduleDecl language).apart current rfl) (opens_enumDecl.apart current rfl)
      · exact opens_variableDecl.apart current rfl
    iterate 4
      rename_i current
      refine .right (parses_variableDeclaration fits current (by decide) visibility start) ?_
      refine .add (.add ?_ ?_) ?_
      · exact (opens_moduleDecl language).apart current rfl
      · exact opens_enumDecl.apart current rfl
      · exact (opens_functionDecl language).apart current rfl
    · simp_all [declarationMarks, moduleMarks, enumMarks, functionMarks, signatureMarks, variableMarks]
  · exact .right (parses declares) ((opens_declaration language).apart rfl (decide_eq_false declares))

/-- Without a visibility, a statement may be none of the declarations. -/
theorem parses_plainStatement (start : Span)
    (plain : before.cursor.kind ∉ declarationMarks) :
    Parses nesting room (afterVisibility statement start .unmarked) source before
      (plainStatement language) ∅ := by
  unfold afterVisibility
  refine .peekKind ?_
  split
  iterate 13
    rename_i current
    exact absurd (by rw [current]; decide) plain
  rw [if_neg fun marked => marked rfl]
  have blocks : Opens (block language) (· ∈ [.symbol .braceOpen]) := .mul (.mul (.token rfl))
  have returns : Opens (keyword .kwReturn * maybe Grammar.expression * mark .semicolon)
    (· ∈ [.keyword .kwReturn]) := .mul (.mul (.token rfl))
  have empty : Opens (mark .semicolon) (· ∈ [.symbol .semicolon]) := .token rfl
  have evaluates : Opens (Grammar.expression * mark .semicolon) startsExpression :=
    opens_expression.mul
  split
  · rename_i current
    refine .left (parses_blockStatement fits statements current) (.add ?_ (.add ?_ ?_))
    · exact returns.apart current rfl
    · exact empty.apart current rfl
    · exact evaluates.apart current rfl
  · rename_i current
    refine .right (.left (parses_returnStatement fits current) (.add ?_ ?_)) ?_
    · exact empty.apart current rfl
    · exact evaluates.apart current rfl
    · exact blocks.apart current rfl
  · rename_i current
    refine .right (.right (.left (.andPure (.advanced rfl current) fun _ => ()) ?_) ?_) ?_
    · exact evaluates.apart current rfl
    · exact returns.apart current rfl
    · exact blocks.apart current rfl
  · rename_i noBlock noReturn notEmpty
    refine .right (.right (.right (parses_expressionStatement fits) ?_) ?_) ?_
    · exact empty.apart rfl (by simpa using notEmpty)
    · exact returns.apart rfl (by simpa using noReturn)
    · exact blocks.apart rfl (by simpa using noBlock)

/-- With a visibility, a statement is a declaration. -/
theorem parses_hidden (start : Span) {visibility : Visibility} (marked : visibility ≠ .unmarked) :
    Parses nesting room (afterVisibility statement start visibility) source before
      (declaration language) ∅ := by
  rw [← add_zero (declaration language)]
  have opens : Opens (0 : Language TokenKind) fun _ => false := fun _ member => nomatch member
  refine parses_declaration fits statements start visibility opens (fun _ _ => rfl) fun plain => ?_
  unfold afterVisibility
  refine .peekKind ?_
  split
  iterate 13
    rename_i current
    exact absurd (by rw [current]; decide) plain
  rw [if_pos marked]
  exact .peek (.fail (bind_of_error rfl) rfl nofun)

theorem parses_construct : Parses nesting room (construct statement) source before
    (Grammar.construct language) ∅ := by
  have unmarked {kind : TokenKind} (other : startsUnmarked kind = false) :
      Precedes (declaration language + plainStatement language) ∅ {kind} :=
    (opens_unmarked language).precedes fun _ same => same ▸ other
  rw [construct_shape, construct_eq]
  refine .idle idle_currentSpan fun start mid _ _ => ?_
  rw [visibility]
  simp only [bind_assoc]
  refine .eat rfl (fun mid _ _ => ?_) (fun _ => ?_) (.add (.token (by simp)) (unmarked rfl))
  · simp only [if_true, pure_bind]
    exact parses_hidden (by omega) (statements.less (by omega)) start nofun
  · simp only [Bool.false_eq_true, if_false, bind_assoc]
    refine .eat rfl (fun mid _ _ => ?_) (fun _ => ?_) ?_
    · simp only [if_true, pure_bind]
      exact parses_hidden (by omega) (statements.less (by omega)) start nofun
    · simp only [Bool.false_eq_true, if_false, pure_bind]
      refine parses_declaration fits statements start .unmarked (opens_plainStatement language)
        (by decide) fun plain => ?_
      exact parses_plainStatement fits statements start plain
    · exact unmarked rfl

end

theorem opens_construct (language : Language TokenKind) :
    Opens (Grammar.construct language) startsMember := by
  have members (kind : TokenKind) (start : startsUnmarked kind) : startsMember kind := by
    unfold startsMember
    split
    · cases start
    · cases start
    · rfl
  rw [construct_shape]
  exact .add (.mul (.token rfl)) (.add (.mul (.token rfl)) ((opens_unmarked language).mono members))

theorem opens_statement : Opens Grammar.statement startsMember :=
  construct_statement ▸ opens_construct Grammar.statement

theorem parses_construct_unroll {depth : Nat} (fits : depth + 1 ≤ source.budget)
    (statements : ParsesMembers depth (unroll recoveringStatement depth) source Grammar.statement) :
    Parses nesting (depth + 1) (construct (unroll recoveringStatement depth)) source before
      Grammar.statement ∅ := by
  rw [← construct_statement]
  exact parses_construct fits (construct_statement ▸ statements)

theorem parsesMembers_unroll (depth : Nat) (fits : depth ≤ source.budget) :
    ParsesMembers depth (unroll recoveringStatement depth) source Grammar.statement := by
  induction depth with
  | zero => exact ⟨opens_statement, fun _ _ => .exhausted⟩
  | succ depth ih =>
    refine ⟨opens_statement, fun mid inside => ?_⟩
    have parses : Parses nesting (depth + 1) (recoveringStatement (unroll recoveringStatement depth))
        source mid Grammar.statement ∅ :=
      parses_recovering (fun _ _ nests _ => nests inside) (inside <| .inr ·) fits
        (parses_construct_unroll fits (ih (Nat.le_of_succ_le fits)))
    exact ⟨parses.ends, parses.ran⟩

/-- What was reported stays reported. Nothing else is said, since a statement may begin at a brace
that closes none. -/
def lasting : Effect where
  done before _ after := before.Reports after
  failed before _ after := before.Reports after
  quiet _ _ keeps := by
    unfold State.Reports
    rw [keeps.diagnostics]
    exact ⟨List.prefix_refl _, List.prefix_refl _⟩
  trans _ _ first second := List.IsPrefix.trans first second
  failed_trans _ _ first second := List.IsPrefix.trans first second
  reports := id

theorem parses_topLevel (inside : before.cursor.kind ≠ .endOfFile) (fits : room ≤ source.budget) :
    Parses lasting room statement source before Grammar.statement ∅ := by
  have parses (depth : Nat) (fits : depth ≤ source.budget) :
      Parses lasting depth (unroll recoveringStatement depth) source before Grammar.statement ∅ := by
    cases depth with
    | zero => exact .exhausted
    | succ depth =>
      have parses : Parses lasting (depth + 1)
          (recoveringStatement (unroll recoveringStatement depth)) source before Grammar.statement ∅ :=
        parses_recovering (fun _ _ _ reports => reports) inside fits
          (parses_construct_unroll fits (parsesMembers_unroll depth (Nat.le_of_succ_le fits)))
      exact ⟨parses.ends, parses.ran⟩
  have parses := (parses source.budget (Nat.le_refl _)).less fits
  exact ⟨parses.ends, parses.ran⟩

def programRound : Parser (Round Unit Unit) := do
  flushComments
  if ← isAtEnd then
    return .done ()
  statement
  return .again ()

theorem program_eq : program = loop () fun _ => programRound :=
  rfl

theorem programRound_apply (source : Source) (before : State) :
    ∃ mid, before.Reads [] mid ∧ before.Nests [] 0 mid ∧ before.IsSilent mid ∧
      (mid.cursor.kind = .endOfFile → programRound source before = some (.ok (.done ()), mid)) ∧
      (mid.cursor.kind ≠ .endOfFile →
        programRound source before = (do statement; return Round.again ()) source mid) := by
  obtain ⟨_, mid, flushed, reads, nests, silent⟩ := idle_flushComments source before
  have ran : programRound source before = (if mid.cursor.isAtEnd then return Round.done ()
      else do statement; return Round.again () : Parser (Round Unit Unit)) source mid := by
    rw [programRound, bind_of_ok flushed]
    rfl
  refine ⟨mid, reads, nests, silent, fun ended => ?_, fun inside => ?_⟩
  · rw [ran, if_pos (Cursor.isAtEnd_iff.mpr ended)]
    rfl
  · rw [ran, if_neg (Cursor.isAtEnd_iff.not.mpr inside)]

theorem parses_program (fits : room ≤ source.budget) :
    Parses lasting room program source before sentence {.endOfFile}ᶜ := by
  rw [program_eq]
  refine .loop fits (Language.one_add_self_mul_kstar_eq_kstar Grammar.statement)
    fun _ before count next fewer again done => ?_
  obtain ⟨mid, reads, nests, silent, ended, inside⟩ := programRound_apply source before
  have goesOn : Opens (Grammar.statement * Grammar.statement∗) startsMember := opens_statement.mul
  rw [← one_mul (1 + _)]
  by_cases here : mid.cursor.kind = .endOfFile
  · refine .step (bind_of_ok (ended here)) reads (nesting.reports nests) silent ?_
    exact (done () mid).left (goesOn.apart here rfl)
  · have same : (programRound >>= next) source before =
        (do statement; next (.again ())) source mid := by
      rw [bind_eq_of_eq next (inside here), bind_assoc]
      rfl
    refine .step same reads (nesting.reports nests) silent ?_
    refine .right ?_ (.one (Set.singleton_subset_iff.mpr here))
    refine (parses_topLevel here (by simpa using fewer.trans fits)).bind
      (fun _ after word _ _ _ null => ?_) .nothing
    have consumed : word ≠ [] := fun empty => opens_statement.nil_notMem (null empty)
    have := List.length_pos_of_ne_nil consumed
    exact (again () after).less (by simp; omega)

theorem kind_of_program {after : State} (ran : program source before = some (.ok (), after)) :
    after.cursor.kind = .endOfFile := by
  rw [program_eq] at ran
  refine loop_done (·.cursor.kind = .endOfFile) (fun _ before result after ran => ?_) ran
  obtain ⟨mid, -, -, -, ended, inside⟩ := programRound_apply source before
  by_cases here : mid.cursor.kind = .endOfFile
  · cases (ended here).symm.trans ran
    exact here
  · rw [inside here] at ran
    exact absurd ran (again_ne_done _)

def Succeeds {α : Type} (parser : Parser α) : Prop :=
  ∀ source before outcome after, parser source before = some (outcome, after) →
    ∃ result, outcome = .ok result

namespace Succeeds

variable {α β σ : Type}

theorem pure (result : α) : Succeeds (pure result) := by
  intro source before outcome after ran
  cases ran
  exact ⟨result, rfl⟩

theorem of_idle {effect : Effect} {parser : Parser α} (idle : Idle effect parser) :
    Succeeds parser := by
  intro source before outcome after ran
  obtain ⟨result, _, same, -⟩ := idle source before
  cases same.symm.trans ran
  exact ⟨result, rfl⟩

theorem bind {parser : Parser α} {next : α → Parser β} (first : Succeeds parser)
    (second : ∀ result, Succeeds (next result)) : Succeeds (parser >>= next) := by
  intro source before outcome after ran
  obtain ⟨_, failed, -⟩ | ⟨result, mid, start, rest⟩ := ran_of_bind ran
  · obtain ⟨_, ⟨⟩⟩ := first source before _ after failed
  · exact second result source mid outcome after rest

theorem loop {start : σ} {round : σ → Parser (Round σ α)} (succeeds : ∀ state, Succeeds (round state)) :
    Succeeds (loop start round) := by
  have within (count : Nat) (state : σ) : Succeeds (rounds round count state) := by
    induction count generalizing state with
    | zero =>
      intro source before outcome after ran
      cases ran
    | succ count ih =>
      refine (succeeds state).bind fun
        | .again state => ih state
        | .done result => .pure result
  exact fun source => within source.budget start source

end Succeeds

theorem succeeds_recoveringStatement (statement : Parser Unit) :
    Succeeds (recoveringStatement statement) := by
  intro source before outcome after ran
  cases start : construct statement source before with
  | none => cases (recoveringStatement_none start).symm.trans ran
  | some middle =>
    obtain ⟨_ | _, mid⟩ := middle
    · rw [recoveringStatement_error start] at ran
      exact ⟨(), (recover_ran ran).1⟩
    · cases (recoveringStatement_ok start).symm.trans ran
      exact ⟨(), rfl⟩

theorem succeeds_unroll (depth : Nat) : Succeeds (unroll recoveringStatement depth) := by
  cases depth with
  | zero =>
    intro source before outcome after ran
    have absurd : none = some (outcome, after) := ran
    cases absurd
  | succ depth => exact fun source => succeeds_recoveringStatement (unroll recoveringStatement depth) source

theorem succeeds_statement : Succeeds statement :=
  fun source => succeeds_unroll source.budget source

theorem succeeds_isAt (kind : TokenKind) : Succeeds (isAt kind) := by
  intro source before outcome after ran
  cases ran
  exact ⟨before.cursor.isAt kind, rfl⟩

theorem succeeds_isAtEnd : Succeeds isAtEnd :=
  succeeds_isAt .endOfFile

theorem succeeds_program : Succeeds program := by
  have round : Succeeds programRound := by
    refine (Succeeds.of_idle idle_flushComments).bind fun _ => succeeds_isAtEnd.bind fun
      | true => .pure _
      | false => succeeds_statement.bind fun _ => .pure _
  rw [program_eq]
  exact .loop fun _ => round

end Parser

end IncrementalFrontend
