import IncrementalFrontend.Proofs.Parser.Commenting
import IncrementalFrontend.Proofs.Parser.Renaming
import IncrementalFrontend.Proofs.Parser.Reporting

/-!
Parsing comes to an end. Each statement consumes a token, also one that fails and is recovered from,
and leaves as many scopes open as it found. So the loops over statements end, and a text is consumed
token by token up to the end of the file. A budget that exceeds the number of tokens does not show.
-/
namespace IncrementalFrontend

open Grammar

namespace Likeness

theorem reach_of_eq {start start' last last' : Span} (first : start = start')
    (second : last = last') :
    (⟨start.start, max last.stop start.stop⟩ : Span) =
      ⟨start'.start, max last'.stop start'.stop⟩ := by
  rw [first, second]

def equal : Likeness where
  name := Eq
  span := Eq
  location := Eq
  dummy := rfl
  reach := @reach_of_eq

theorem equal_entries (entry : TokenEntry) : equal.Entries entry entry :=
  ⟨⟨.refl (fun _ => rfl) _, rfl⟩, List.forall₂_same.mpr fun _ _ => ⟨rfl, rfl, rfl⟩⟩

theorem equal_nodes (node : Node) : equal.Nodes node node := by
  cases node with
  | functionDecl function => exact .functionDecl function rfl
  | _ => constructor <;> rfl

theorem equal_diagnostics (diagnostic : Diagnostic) : equal.Diagnostics diagnostic diagnostic :=
  ⟨rfl, rfl, rfl, rfl, rfl⟩

theorem Nodes.eq {node node' : Node} (same : equal.Nodes node node') : node = node' :=
  (same.imp fun _ _ => id : contents.Nodes node node').eq_of_contents

theorem Diagnostics.eq {diagnostic diagnostic' : Diagnostic}
    (same : equal.Diagnostics diagnostic diagnostic') : diagnostic = diagnostic' := by
  obtain ⟨code, severity, message, notes, location⟩ := same
  cases diagnostic
  cases diagnostic'
  cases code
  cases severity
  cases message
  cases notes
  cases location
  rfl

end Likeness

namespace Parser

variable {source : Source} {before mid after start : State} {error : ParseError} {log : List Event}
  {part : Part} {outcome : Except ParseError Unit}

theorem State.depth_tell (source : Source) (error : ParseError) (state : State) :
    (state.tell source error).builder.depth = state.builder.depth := by
  rw [State.tell]
  split <;> rfl

/-- Recovery closes the scopes that were opened since, and no other. -/
theorem depth_of_recover {place depth : Nat} {span : Span}
    (ran : recover place span depth error source mid = some (outcome, after))
    (opened : depth ≤ mid.builder.depth) : after.builder.depth = depth := by
  obtain ⟨-, word, skipped, skips, -, nests, -⟩ := recover_ran ran
  have unwound : ((mid.tell source error).unwind depth).builder.depth = depth := by
    rw [State.unwind, Builder.depth_unwindTo, State.depth_tell, Nat.min_eq_right opened]
  rw [nests.depth, (skipped.walks_leave place).2, skips.builder, unwound, Nat.add_zero]

/-- Wherever a statement begins, it never fails and leaves no scope open. Unless the file has ended,
it consumes a token. -/
theorem steps_unroll {depth : Nat} (fits : depth ≤ source.budget)
    (ran : unroll recoveringStatement depth source before = some (outcome, after)) :
    outcome = .ok () ∧ after.builder.depth = before.builder.depth ∧
      (before.cursor.kind ≠ .endOfFile → before.cursor.position < after.cursor.position) := by
  cases depth with
  | zero => cases ran
  | succ depth =>
    have parses : Parses nesting (depth + 1) (construct (unroll recoveringStatement depth)) source
        before Grammar.statement ∅ :=
      parses_construct_unroll fits (parsesMembers_unroll depth (Nat.le_of_succ_le fits))
    have ran : recoveringStatement (unroll recoveringStatement depth) source before =
      some (outcome, after) := ran
    cases first : construct (unroll recoveringStatement depth) source before with
    | none => cases (recoveringStatement_none first).symm.trans ran
    | some result =>
      obtain ⟨ended, mid⟩ := result
      obtain ⟨word, reads, ends, -⟩ := parses.ran ended mid first
      cases ended with
      | ok _ =>
        cases (recoveringStatement_ok first).symm.trans ran
        obtain ⟨nests, null, -⟩ := ends
        refine ⟨rfl, nests.depth, fun _ => ?_⟩
        have consumed : word ≠ [] := fun empty => opens_statement.nil_notMem (null empty)
        have := List.length_pos_of_ne_nil consumed
        have := reads.position
        omega
      | error error =>
        rw [recoveringStatement_error first] at ran
        obtain ⟨⟨opened, nests⟩, -⟩ := ends
        have deeper : before.builder.depth ≤ mid.builder.depth := nests.depth ▸ Nat.le_add_right _ _
        refine ⟨(recover_ran ran).1, depth_of_recover ran deeper, fun inside => ?_⟩
        obtain ⟨-, more, further, consumed, -⟩ := recovers ran reads inside
        have := List.length_pos_of_ne_nil consumed
        have := further.position
        omega

/-- A statement ends if the budget exceeds the number of tokens. -/
theorem isSome_unroll {depth : Nat} (fits : depth ≤ source.budget)
    (few : before.cursor.kinds.length < depth) :
    (unroll recoveringStatement depth source before).isSome := by
  cases depth with
  | zero => cases few
  | succ depth =>
    have parses : Parses nesting (depth + 1) (construct (unroll recoveringStatement depth)) source
        before Grammar.statement ∅ :=
      parses_construct_unroll fits (parsesMembers_unroll depth (Nat.le_of_succ_le fits))
    exact isSome_recovering fits parses few

/-- A statement of a course consumes a token. -/
theorem Runs.advances (runs : Runs source (.one .statement) before log outcome after)
    (budget : 0 < source.budget) : before.cursor.position < after.cursor.position := by
  cases runs with
  | plain fresh bare ran =>
    have parses :=
      @parses_construct_unroll source before 0 budget (parsesMembers_unroll 0 (Nat.zero_le _))
    obtain ⟨word, reads, ⟨-, null, -⟩, -⟩ := parses.ran _ after (ran _)
    have consumed : word ≠ [] := fun empty => opens_statement.nil_notMem (null empty)
    have := List.length_pos_of_ne_nil consumed
    have := reads.position
    omega
  | failed fresh bare ran recovers => exact (recovered_of_bare fresh bare ran recovers).moved
  | enclosed fresh comes members finishes =>
    obtain ⟨entries, grows⟩ := members.grows
    have behind := (grows.behind comes.opened.holds).2.1
    exact Nat.lt_of_lt_of_le behind (members.completes comes finishes).extends_.position
  | broken fresh comes members recovers => exact (members.recovered comes fresh recovers).moved

/-- Each statement that began in a course came to an end in it. -/
theorem Runs.exists_statement (runs : Runs source part before log outcome after)
    (member : .began start ∈ log) :
    ∃ inner last, Runs source (.one .statement) start inner (.ok ()) last := by
  induction runs with
  | @plain before after fresh bare ran =>
    cases List.mem_singleton.mp member
    exact ⟨_, after, .plain fresh bare ran⟩
  | @failed before failure after error fresh bare ran recovers =>
    obtain rfl : start = before := by simpa using member
    exact ⟨_, after, .failed fresh bare ran recovers⟩
  | @enclosed before inside stop after list log fresh comes members finishes ih =>
    obtain rfl | within : start = before ∨ .began start ∈ log := by simpa using member
    · exact ⟨_, after, .enclosed fresh comes members finishes⟩
    · exact ih within
  | @broken before inside failure after list error log fresh comes members recovers ih =>
    obtain rfl | within : start = before ∨ .began start ∈ log := by simpa using member
    · exact ⟨_, after, .broken fresh comes members recovers⟩
    · exact ih within
  | element | done => cases member
  | more further first others ih ih' => exact (List.mem_append.mp member).elim ih ih'
  | stop further first ih => exact ih member

/-- The tokens before the end of the file are consumed, each once and in their order. No comment
waits, and no scope is open that was not open before. -/
structure State.IsFinished (tokens : List TokenEntry) (builder : Builder) (state : State) :
    Prop where
  consumed : state.cursor.consumed.reverse = tokens.takeWhile (·.token.kind ≠ .endOfFile)
  rest : state.cursor.rest = tokens.dropWhile (·.token.kind ≠ .endOfFile)
  ended : state.cursor.isAtEnd
  waiting : state.cursor.waiting = []
  depth : state.builder.depth = builder.depth

theorem consumed_eq_takeWhile {tokens : List TokenEntry} {cursor : Cursor}
    (entries : cursor.entries = tokens) (position : cursor.position =
      ((tokens.map (·.token.kind)).takeWhile (· ≠ .endOfFile)).length) :
    cursor.consumed.reverse = tokens.takeWhile (·.token.kind ≠ .endOfFile) := by
  have front : cursor.consumed.reverse <+: tokens := ⟨cursor.rest, entries⟩
  have other : tokens.takeWhile (·.token.kind ≠ .endOfFile) <+: tokens := List.takeWhile_prefix _
  have lengths : cursor.consumed.reverse.length =
      (tokens.takeWhile (·.token.kind ≠ .endOfFile)).length := by
    rw [List.length_reverse]
    rw [List.takeWhile_map, List.length_map] at position
    exact position
  exact (List.prefix_of_prefix_length_le front other (Nat.le_of_eq lengths)).eq_of_length lengths

theorem rest_eq_dropWhile {tokens : List TokenEntry} {cursor : Cursor}
    (entries : cursor.entries = tokens)
    (consumed : cursor.consumed.reverse = tokens.takeWhile (·.token.kind ≠ .endOfFile)) :
    cursor.rest = tokens.dropWhile (·.token.kind ≠ .endOfFile) := by
  have whole : cursor.consumed.reverse ++ cursor.rest =
      tokens.takeWhile (·.token.kind ≠ .endOfFile) ++
        tokens.dropWhile (·.token.kind ≠ .endOfFile) :=
    entries.trans List.takeWhile_append_dropWhile.symm
  rw [consumed] at whole
  exact List.append_cancel_left whole

theorem exists_finished {tokens : List TokenEntry} {builder : Builder}
    (few : tokens.length < source.budget) :
    ∃ after, program source ⟨.ofTokens tokens, builder⟩ = some (.ok (), after) ∧
      after.IsFinished tokens builder := by
  have fits : (State.mk (.ofTokens tokens) builder).cursor.kinds.length < source.budget := by
    simpa [Cursor.kinds, Cursor.ofTokens] using few
  obtain ⟨after, word, ran, ended, reads, -⟩ := program_ran fits
  obtain ⟨log, runs⟩ := runs_of_program ran
  obtain ⟨entries, grows⟩ := runs.grows
  have position : after.cursor.position = 0 + word.length := reads.position
  rw [Nat.zero_add, ← reads.takeWhile_kinds ended] at position
  have consumed := consumed_eq_takeWhile grows.fits.tokens position
  exact ⟨after, ran, consumed, rest_eq_dropWhile grows.fits.tokens consumed,
    Cursor.isAtEnd_iff.mpr ended, runs.waiting, grows.lists.depth_eq⟩

section Budget

variable {lines : LineIndex} {names : Interner} {budget budget' : Nat} {unit : SourceUnit}
  {tokens : List TokenEntry} {builder builder' : Builder} {after' : State}

def Setting.budgets (lines : LineIndex) (names : Interner) (budget budget' : Nat)
    (unit : SourceUnit) (tokens : List TokenEntry) : Setting where
  like := .equal
  source := ⟨lines, names, budget⟩
  source' := ⟨lines, names, budget'⟩
  unit := unit
  unit' := unit
  entries := tokens
  ahead := 0
  front := .ofUnit unit
  texts := by
    rintro name _ rfl
    rfl
  places := by
    rintro span _ rfl
    rfl

theorem Setting.states_budgets : (Setting.budgets lines names budget budget' builder.unit
    tokens).States ⟨.ofTokens tokens, builder⟩ ⟨.ofTokens tokens, builder⟩ where
  cursor := Setting.cursors_ofTokens _
    (List.forall₂_same.mpr fun entry _ => Likeness.equal_entries entry) rfl rfl
  builder :=
    { nodes := ⟨_, rfl, List.forall₂_same.mpr fun placed _ =>
        ⟨placed.node.shift_zero.symm ▸ Likeness.equal_nodes _, rfl⟩⟩
      topLevel := by simp [Setting.budgets, Setting.shift, Builder.ofUnit]
      scopes := List.forall₂_same.mpr fun members _ => by
        simp [Setting.budgets, Setting.shift, Builder.ofUnit]
      diagnostics := ⟨_, rfl, List.forall₂_same.mpr fun diagnostic _ =>
        Likeness.equal_diagnostics diagnostic⟩
      unit := rfl
      unit' := rfl }

theorem Setting.eq_of_budgets
    (builders : (Setting.budgets lines names budget budget' unit tokens).Builders builder builder') :
    builder = builder' := by
  obtain ⟨⟨nodes, same, placed⟩, topLevel, scopes, ⟨told, same', alike⟩, unit, unit'⟩ := builders
  obtain rfl : builder.nodes.toList = nodes := same
  obtain rfl : builder.diagnostics.toList = told := same'
  have nodes : builder.nodes.toList = builder'.nodes.toList := by
    rw [← List.forall₂_eq_eq_eq]
    refine placed.imp fun item item' same => ?_
    have node : item.node = item'.node.shift 0 := same.node.eq
    rw [Node.shift_zero] at node
    have location : item.location = item'.location := same.location
    cases item
    cases item'
    cases node
    cases location
    rfl
  have diagnostics : builder.diagnostics.toList = builder'.diagnostics.toList := by
    rw [← List.forall₂_eq_eq_eq]
    exact alike.imp fun _ _ => (·.eq)
  have topLevel : builder.topLevel.toList = builder'.topLevel.toList := by
    simpa [Setting.budgets, Setting.shift, Builder.ofUnit] using topLevel
  have scopes : builder.scopes = builder'.scopes := by
    rw [← List.forall₂_eq_eq_eq]
    refine scopes.imp fun members members' same => Array.toList_inj.mp ?_
    simpa [Setting.budgets, Setting.shift, Builder.ofUnit] using same
  have unit : builder.unit = builder'.unit := unit.trans unit'.symm
  cases builder
  cases builder'
  cases unit
  cases scopes
  cases Array.toList_inj.mp nodes
  cases Array.toList_inj.mp topLevel
  cases Array.toList_inj.mp diagnostics
  rfl

theorem State.IsFinished.cursor_eq {state state' : State} (finished : state.IsFinished tokens builder)
    (finished' : state'.IsFinished tokens builder) : state.cursor = state'.cursor := by
  have consumed := List.reverse_injective (finished.consumed.trans finished'.consumed.symm)
  have rest := finished.rest.trans finished'.rest.symm
  have waiting := finished.waiting.trans finished'.waiting.symm
  cases cursor : state.cursor
  cases cursor' : state'.cursor
  simp_all

/-- Budgets that exceed the number of tokens make no difference. -/
theorem program_eq_of_budget (enough : tokens.length < budget) (enough' : tokens.length < budget') :
    program ⟨lines, names, budget⟩ ⟨.ofTokens tokens, builder⟩ =
      program ⟨lines, names, budget'⟩ ⟨.ofTokens tokens, builder⟩ := by
  obtain ⟨after, ran, finished⟩ :
      ∃ after, program ⟨lines, names, budget⟩ ⟨.ofTokens tokens, builder⟩ = some (.ok (), after) ∧
        after.IsFinished tokens builder := exists_finished enough
  obtain ⟨after', ran', finished'⟩ :
      ∃ after, program ⟨lines, names, budget'⟩ ⟨.ofTokens tokens, builder⟩ = some (.ok (), after) ∧
        after.IsFinished tokens builder := exists_finished enough'
  let setting : Setting := .budgets lines names budget budget' builder.unit tokens
  have agree : setting.Agree Eq program program :=
    .loop Eq rfl fun _ _ _ => setting.agree_programRound
  obtain ⟨-, states⟩ := agree _ _ _ _ _ _ Setting.states_budgets ran ran'
  have same : after = after' := by
    cases after
    cases after'
    cases finished.cursor_eq finished'
    cases Setting.eq_of_budgets states.builder
    rfl
  rw [ran, ran', same]

end Budget

/-- Parsing makes progress and comes to an end, the same for each budget that exceeds the number of
tokens. Any tokens are consumed up to the end of the file; a statement that a loop begins on the way
consumes a token. Wherever it begins, a statement never fails, leaves as many scopes open as it
found, and consumes a token unless the file has ended. -/
theorem program_finishes (tokens : List TokenEntry) (lines : LineIndex) (names : Interner)
    (builder : Builder) :
    ∃ after, buildTokens tokens lines names builder = after.builder ∧
      after.IsFinished tokens builder ∧
      ∀ budget, tokens.length < budget →
        let source : Source := ⟨lines, names, budget⟩
        program source ⟨.ofTokens tokens, builder⟩ = some (.ok (), after) ∧
        (∃ log, Runs source (.all .text) ⟨.ofTokens tokens, builder⟩ log (.ok ()) after ∧
          ∀ start, .began start ∈ log → ∃ inner last,
            Runs source (.one .statement) start inner (.ok ()) last ∧
              start.cursor.position < last.cursor.position ∧
              last.builder.depth = start.builder.depth) ∧
        ∀ depth ≤ budget, ∀ before,
          (before.cursor.kinds.length < depth →
            (unroll recoveringStatement depth source before).isSome) ∧
          ∀ outcome after,
            unroll recoveringStatement depth source before = some (outcome, after) →
              outcome = .ok () ∧ after.builder.depth = before.builder.depth ∧
                (before.cursor.kind ≠ .endOfFile →
                  before.cursor.position < after.cursor.position) := by
  have large : tokens.length < tokens.length + 2 := by omega
  obtain ⟨after, ran, built⟩ := buildTokens_ran tokens lines names builder
  obtain ⟨last, ran', finished⟩ :
      ∃ last, program ⟨lines, names, tokens.length + 2⟩ ⟨.ofTokens tokens, builder⟩ =
        some (.ok (), last) ∧ last.IsFinished tokens builder := exists_finished large
  cases ran.symm.trans ran'
  refine ⟨after, built, finished, fun budget enough => ?_⟩
  intro source
  have ran : program source ⟨.ofTokens tokens, builder⟩ = some (.ok (), after) :=
    (program_eq_of_budget enough large).trans ran
  have budget : 0 < source.budget := Nat.zero_lt_of_lt enough
  obtain ⟨log, runs⟩ := runs_of_program ran
  refine ⟨ran, ⟨log, runs, fun start member => ?_⟩, fun depth fits before =>
    ⟨isSome_unroll fits, fun _ _ => steps_unroll fits⟩⟩
  obtain ⟨inner, last, statement⟩ := runs.exists_statement member
  obtain ⟨entries, grows⟩ := statement.grows
  exact ⟨inner, last, statement, statement.advances budget, grows.lists.depth_eq⟩

/-- A closing brace that closes none, an invalid token and a module that breaks off, without an end
of the file. -/
theorem program_finishes_broken :
    let entry (kind : TokenKind) : TokenEntry := ⟨⟨kind, .dummy⟩, []⟩
    let tokens := [.symbol .braceClose, .invalid, .keyword .kwModule, .identifier .empty,
      .symbol .braceOpen, .keyword .kwEnum].map entry
    let builder : Builder := .ofUnit ⟨.empty, .empty, .empty⟩
    tokens.length < 7 ∧ ∃ after,
      program ⟨.ofText "", .blank, 7⟩ ⟨.ofTokens tokens, builder⟩ = some (.ok (), after) ∧
        after.cursor.position = 6 ∧ after.builder.depth = 0 := by
  intro entry tokens builder
  have enough : tokens.length < 7 := by decide
  obtain ⟨after, -, finished, finishes⟩ := program_finishes tokens (.ofText "") .blank builder
  obtain ⟨ran, -⟩ := finishes 7 enough
  have all : tokens.takeWhile (·.token.kind ≠ .endOfFile) = tokens := rfl
  have consumed := congrArg List.length (finished.consumed.trans all)
  rw [List.length_reverse] at consumed
  exact ⟨enough, after, ran, consumed, finished.depth⟩

end Parser

end IncrementalFrontend
