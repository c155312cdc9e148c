import IncrementalFrontend.Proofs.Parser.Nesting

/-!
Lists in braces. Each ends with the token that closes its opening brace, or at the end of the file
if there is no such token, which is then reported; nothing else is reported as unclosed.
-/
namespace IncrementalFrontend

open Grammar Computability

namespace Parser

variable {α : Type} {room : Nat} {source : Source} {before inside mid after : State}
  {word body : List TokenKind} {opening : Span} {members : Parser Unit} {language : Language TokenKind}

def enclosed (members : Parser Unit) (opening : Span) : Parser (List NodeId) := do
  openScope
  members
  let nodes ← closeScope
  closeBrace opening
  return nodes

def State.openScope (state : State) : State :=
  { state with builder := state.builder.openScope }

def unclosedBrace (source : Source) (state : State) (opening : Span) : Diagnostic :=
  .unclosedDelimiter (source.lines.location state.builder.path opening) Symbol.braceOpen.text

def State.close (source : Source) (opening : Span) (state : State) : State :=
  if state.cursor.isAt (.symbol .braceClose) then
    ⟨state.cursor.advance, state.builder.closeScope.2⟩
  else
    ⟨state.cursor, state.builder.closeScope.2.report (unclosedBrace source state opening)⟩

theorem closeBrace_apply (state : State) (opening : Span) :
    closeBrace opening source ⟨state.cursor, state.builder.closeScope.2⟩ =
      some (.ok (), state.close source opening) := by
  rw [closeBrace, eatSymbol, bind_of_ok (eat_apply _), Cursor.eat, State.close]
  split
  · rfl
  · rw [unclosedBrace, Builder.path, ← Builder.unit_closeScope]
    rfl

theorem enclosed_ok (ran : members source before.openScope = some (.ok (), mid)) :
    enclosed members opening source before =
      some (.ok mid.builder.closeScope.1, mid.close source opening) := by
  have opens : openScope source before = some (.ok (), before.openScope) := rfl
  have closes : closeScope source mid =
    some (.ok mid.builder.closeScope.1, ⟨mid.cursor, mid.builder.closeScope.2⟩) := rfl
  rw [enclosed, bind_of_ok opens, bind_of_ok ran, bind_of_ok closes,
    bind_of_ok (closeBrace_apply mid opening)]
  rfl

theorem enclosed_error {error : ParseError}
    (ran : members source before.openScope = some (.error error, mid)) :
    enclosed members opening source before = some (.error error, mid) := by
  have opens : openScope source before = some (.ok (), before.openScope) := rfl
  rw [enclosed, bind_of_ok opens, bind_of_error ran]

theorem enclosed_none (ran : members source before.openScope = none) :
    enclosed members opening source before = none := by
  have opens : openScope source before = some (.ok (), before.openScope) := rfl
  rw [enclosed, bind_of_ok opens, bind_of_none ran]

/-- A list in braces ends where a member fails, or its scope is closed. -/
theorem enclosed_ran {outcome : Except ParseError (List NodeId)}
    (ran : enclosed members opening source before = some (outcome, after)) :
    (∃ error, members source before.openScope = some (.error error, after) ∧
        outcome = .error error) ∨
      ∃ mid, members source before.openScope = some (.ok (), mid) ∧
        outcome = .ok mid.builder.closeScope.1 ∧ after = mid.close source opening := by
  cases start : members source before.openScope with
  | none => cases (enclosed_none start).symm.trans ran
  | some middle =>
    obtain ⟨error | _, mid⟩ := middle
    · cases (enclosed_error start).symm.trans ran
      exact .inl ⟨error, rfl, rfl⟩
    · cases (enclosed_ok start).symm.trans ran
      exact .inr ⟨mid, rfl, rfl, rfl⟩

def State.IsAtListEnd (state : State) : Prop :=
  state.cursor.kind = .symbol .braceClose ∨ state.cursor.kind = .endOfFile

def StopsAtBrace (members : Parser Unit) : Prop :=
  ∀ source before after, members source before = some (.ok (), after) → after.IsAtListEnd

/-- Behind an opening brace, a list was read with the brace that closes it. If the file ended
first, the opening brace was reported last. -/
inductive State.Encloses (source : Source) (opening : Span) (inside after : State) :
    List TokenKind → Prop where
  | closed {body : List TokenKind} (balanced : IsBalanced body)
      (reads : inside.Reads (body ++ [.symbol .braceClose]) after)
      (reports : ∃ new, after.builder.diagnostics.toList = inside.builder.diagnostics.toList ++ new ∧
        ∀ diagnostic ∈ new, diagnostic.code ≠ .unclosedDelimiter) :
      Encloses source opening inside after (body ++ [.symbol .braceClose])
  | ended {body : List TokenKind} {depth : Nat} (walk : openBraces 0 body = some depth)
      (reads : inside.Reads body after) (ended : after.cursor.kind = .endOfFile)
      (reports : ∃ new, after.builder.diagnostics.toList =
        inside.builder.diagnostics.toList ++ new ++ [unclosedBrace source inside opening]) :
      Encloses source opening inside after body

structure State.Restores (inside after : State) : Prop where
  stack : after.builder.stack = inside.builder.stack
  unit : after.builder.unit = inside.builder.unit

theorem State.Nests.restores (nests : inside.openScope.Nests body 0 mid) :
    inside.Restores (mid.close source opening) := by
  have depth : mid.builder.depth ≠ 0 := by
    rw [nests.depth]
    exact Nat.succ_ne_zero _
  have outer : mid.builder.closeScope.2.stack = inside.builder.stack := by
    rw [Builder.stack_closeScope depth, ← List.drop_one]
    exact nests.outer
  have unit : mid.builder.closeScope.2.unit = inside.builder.unit :=
    (Builder.unit_closeScope _).trans nests.unit
  unfold State.close
  split
  · exact ⟨outer, unit⟩
  · exact ⟨outer, unit⟩

theorem State.close_of_closed (here : mid.cursor.kind = .symbol .braceClose) :
    mid.close source opening = ⟨mid.cursor.advance, mid.builder.closeScope.2⟩ :=
  if_pos (Cursor.isAt_iff.mpr here)

theorem State.close_of_ended (ended : mid.cursor.kind = .endOfFile) : mid.close source opening =
    ⟨mid.cursor, mid.builder.closeScope.2.report (unclosedBrace source mid opening)⟩ := by
  refine if_neg fun here => ?_
  cases ended.symm.trans (Cursor.isAt_iff.mp here)

theorem State.Nests.closed (nests : inside.openScope.Nests body 0 mid)
    (reads : inside.openScope.Reads body mid) (here : mid.cursor.kind = .symbol .braceClose) :
    inside.Encloses source opening (mid.close source opening) (body ++ [.symbol .braceClose]) := by
  obtain ⟨depth, walk, rfl | ended⟩ := nests.braces
  · have reads : inside.Reads body mid := ⟨reads.kinds, reads.inside, reads.position⟩
    have last := State.reads_advance here TokenKind.noConfusion
    obtain ⟨new, same, fine⟩ := nests.reports
    rw [State.close_of_closed here]
    refine .closed walk (reads.trans ⟨last.kinds, last.inside, last.position⟩) ⟨new, ?_, fine (.inl walk)⟩
    rwa [Builder.diagnostics_closeScope]
  · cases here.symm.trans ended

theorem State.Nests.ended (nests : inside.openScope.Nests body 0 mid)
    (reads : inside.openScope.Reads body mid) (ended : mid.cursor.kind = .endOfFile) :
    inside.Encloses source opening (mid.close source opening) body := by
  obtain ⟨depth, walk, -⟩ := nests.braces
  obtain ⟨new, same, -⟩ := nests.reports
  have unclosed : unclosedBrace source mid opening = unclosedBrace source inside opening := by
    rw [unclosedBrace, Builder.path, nests.unit]
    rfl
  rw [State.close_of_ended ended, unclosed]
  refine .ended walk ⟨reads.kinds, reads.inside, reads.position⟩ ended ⟨new, ?_⟩
  simp [Builder.report, Builder.diagnostics_closeScope, same, State.openScope, Builder.openScope]

/-- With its opening brace in front, the list has left no scope and no brace open. -/
theorem State.Encloses.nests (current : before.cursor.kind = .symbol .braceOpen)
    (encloses : State.Encloses source opening { before with cursor := before.cursor.advance }
      after word)
    (restores : State.Restores { before with cursor := before.cursor.advance } after) :
    before.Reads (.symbol .braceOpen :: word) after ∧
      before.Nests (.symbol .braceOpen :: word) 0 after := by
  have first := State.reads_advance current TokenKind.noConfusion
  have depth : after.builder.depth = before.builder.depth := by
    have length := congrArg List.length restores.stack
    simpa using length
  have outer : after.builder.stack.drop 1 = before.builder.stack.tail := by
    rw [restores.stack, List.drop_one]
  cases encloses with
  | @closed body balanced reads reports =>
    refine ⟨first.trans reads, ⟨0, ?_, .inl rfl⟩, depth, outer, restores.unit, ?_⟩
    · rw [openBraces_open, openBraces_append, openBraces_add 1 balanced]
      rfl
    · obtain ⟨new, same, fine⟩ := reports
      exact ⟨new, same, fun _ => fine⟩
  | @ended _ opened walk reads ended reports =>
    have walk : openBraces 0 (.symbol .braceOpen :: word) = some (opened + 1) := by
      rw [openBraces_open, openBraces_add 1 walk]
    refine ⟨first.trans reads, ⟨opened + 1, walk, .inr ended⟩, depth, outer, restores.unit, ?_⟩
    obtain ⟨new, same⟩ := reports
    rw [List.append_assoc] at same
    refine ⟨_, same, fun complete => ?_⟩
    cases walk.symm.trans (complete.resolve_right fun inside => inside ended)

theorem mem_braces {word : List TokenKind} {language : Language TokenKind} :
    word ∈ mark .braceOpen * (language * mark .braceClose) ↔
      ∃ body ∈ language, word = .symbol .braceOpen :: (body ++ [.symbol .braceClose]) := by
  constructor
  · intro member
    obtain ⟨_, rfl, _, inRight, rfl⟩ := Language.mem_mul.mp member
    obtain ⟨body, inside, _, rfl, rfl⟩ := Language.mem_mul.mp inRight
    exact ⟨body, inside, rfl⟩
  · rintro ⟨body, inside, rfl⟩
    have first : [.symbol .braceOpen] ∈ mark .braceOpen := rfl
    have last : [.symbol .braceClose] ∈ mark .braceClose := rfl
    exact Language.append_mem_mul first (Language.append_mem_mul inside last)

section

variable (current : before.cursor.kind = .symbol .braceOpen)
include current

/-- A word of a list in braces ends where the members end. -/
theorem complete_braces {outcome : Except ParseError Unit} {rest : List TokenKind}
    (ran : Ran nesting ⟨before.cursor.advance, before.builder.openScope⟩ language
      {.symbol .braceClose}ᶜ outcome mid body)
    (member : word ∈ mark .braceOpen * (language * mark .braceClose))
    (kinds : before.cursor.kinds = word ++ rest) :
    (∃ result, outcome = .ok result) ∧ word = .symbol .braceOpen :: (body ++ [.symbol .braceClose]) ∧
      mid.cursor.kind = .symbol .braceClose ∧ before.IsSilent mid := by
  obtain ⟨body', inside, rfl⟩ := mem_braces.mp member
  have first := State.reads_advance current TokenKind.noConfusion
  have kinds : before.cursor.advance.kinds = body' ++ .symbol .braceClose :: rest := by
    simpa using first.kinds.symm.trans kinds
  obtain ⟨ok, rfl, silent⟩ := ran.complete body' (.symbol .braceClose :: rest) inside kinds (· rfl)
  refine ⟨ok, rfl, ?_, silent⟩
  rw [Cursor.kind_eq_first, List.append_cancel_left (ran.reads.kinds.symm.trans kinds)]
  rfl

theorem ran_closed {outcome : Except ParseError (List NodeId)}
    (ran : Ran nesting ⟨before.cursor.advance, before.builder.openScope⟩ language
      {.symbol .braceClose}ᶜ (.ok ()) mid body)
    (ok : ∃ nodes, outcome = .ok nodes) (here : mid.cursor.kind = .symbol .braceClose) :
    Ran nesting before (mark .braceOpen * (language * mark .braceClose)) ∅ outcome
      (mid.close source opening) (.symbol .braceOpen :: (body ++ [.symbol .braceClose])) := by
  obtain ⟨nodes, rfl⟩ := ok
  obtain ⟨done, -, sound⟩ := ran.ends
  have nests : (State.openScope { before with cursor := before.cursor.advance }).Nests body 0 mid :=
    done
  have silent : before.IsSilent (mid.close source opening) ↔ before.IsSilent mid := by
    rw [State.close_of_closed here, State.IsSilent, State.IsSilent, Builder.diagnostics_closeScope]
  obtain ⟨reads', nests'⟩ := (nests.closed ran.reads here).nests current nests.restores
  refine ⟨reads', ⟨nests', nofun, fun quiet valid => ?_⟩, fun sentence rest member kinds _ => ?_⟩
  · refine mem_braces.mpr ⟨body, sound (silent.mp quiet) fun inside => valid ?_, rfl⟩
    rw [Cursor.kinds_eq_cons (current ▸ TokenKind.noConfusion)]
    exact List.mem_cons_of_mem _ inside
  · obtain ⟨-, rfl, -, quiet⟩ := complete_braces current ran member kinds
    exact ⟨⟨nodes, rfl⟩, rfl, silent.mpr quiet⟩

theorem ran_ended {outcome : Except ParseError (List NodeId)}
    (ran : Ran nesting ⟨before.cursor.advance, before.builder.openScope⟩ language
      {.symbol .braceClose}ᶜ (.ok ()) mid body)
    (ok : ∃ nodes, outcome = .ok nodes) (ended : mid.cursor.kind = .endOfFile) :
    Ran nesting before (mark .braceOpen * (language * mark .braceClose)) ∅ outcome
      (mid.close source opening) (.symbol .braceOpen :: body) := by
  obtain ⟨nodes, rfl⟩ := ok
  have nests : (State.openScope { before with cursor := before.cursor.advance }).Nests body 0 mid :=
    ran.ends.1
  obtain ⟨reads', nests'⟩ := (nests.ended ran.reads ended).nests current nests.restores
  refine ⟨reads', ⟨nests', nofun, fun quiet _ => ?_⟩, fun sentence rest member kinds _ => ?_⟩
  · obtain ⟨new, same, -⟩ := nests.reports
    have length := congrArg Array.size quiet
    have length' := congrArg List.length same
    rw [State.close_of_ended ended] at length
    simp [Builder.report, Builder.diagnostics_closeScope, State.openScope, Builder.openScope]
      at length length'
    omega
  · obtain ⟨-, -, here, -⟩ := complete_braces current ran member kinds
    cases here.symm.trans ended

/-- A list in braces is parsed, if its members are parsed up to a closing brace. -/
theorem parses_enclosed {parser : Parser (List NodeId)}
    (same : parser source before =
      enclosed members opening source { before with cursor := before.cursor.advance })
    (stops : StopsAtBrace members)
    (parses : Parses nesting (room - 1) members source
      ⟨before.cursor.advance, before.builder.openScope⟩ language {.symbol .braceClose}ᶜ) :
    Parses nesting room parser source before (mark .braceOpen * (language * mark .braceClose)) ∅ := by
  have first := State.reads_advance current TokenKind.noConfusion
  refine ⟨fun fits => ?_, fun outcome after ran => ?_⟩
  · have fewer : before.cursor.advance.kinds.length < room - 1 := by
      have length := first.length
      simp only [List.length_singleton] at length
      omega
    obtain ⟨⟨_ | _, mid⟩, ran⟩ := Option.isSome_iff_exists.mp (parses.ends fewer)
    · rw [same, enclosed_error ran]
      rfl
    · rw [same, enclosed_ok ran]
      rfl
  · rw [same] at ran
    obtain ⟨_, failed, rfl⟩ | ⟨mid, start, rfl, rfl⟩ := enclosed_ran ran
    · obtain ⟨body, ran⟩ := parses.ran _ after failed
      obtain ⟨⟨opened, nests⟩, found⟩ := ran.ends
      have reads : State.Reads ⟨before.cursor.advance, before.builder⟩ body after :=
        ⟨ran.reads.kinds, ran.reads.inside, ran.reads.position⟩
      refine ⟨_, first.trans reads, ⟨⟨opened + 1, nests.behindBrace⟩, found⟩, ?_⟩
      intro sentence rest member kinds _
      obtain ⟨⟨_, absurd⟩, -⟩ := complete_braces current ran member kinds
      cases absurd
    · obtain ⟨body, ran⟩ := parses.ran _ mid start
      rcases stops _ _ _ start with here | ended
      · exact ⟨_, ran_closed current ran ⟨_, rfl⟩ here⟩
      · exact ⟨_, ran_ended current ran ⟨_, rfl⟩ ended⟩

end

namespace Parses

variable {other : Language TokenKind} {avoid : Set TokenKind}

theorem peekAt {effect : Effect} {kind : TokenKind} {next : Bool → Parser α}
    (parses : Parses effect room (next (before.cursor.isAt kind)) source before language avoid) :
    Parses effect room (Parser.isAt kind >>= next) source before language avoid :=
  ⟨parses.ends, parses.ran⟩

theorem peekAtEnd {effect : Effect} {next : Bool → Parser α}
    (parses : Parses effect room (next before.cursor.isAtEnd) source before language avoid) :
    Parses effect room (Parser.isAtEnd >>= next) source before language avoid :=
  ⟨parses.ends, parses.ran⟩

/-- What comes after a list in braces, whose opening brace is the current token. -/
theorem braced {opener : Parser Token} {next : Token → List NodeId → Parser α}
    (current : before.cursor.kind = .symbol .braceOpen)
    (opens : opener source before =
      some (.ok before.cursor.current, { before with cursor := before.cursor.advance }))
    (stops : StopsAtBrace members)
    (parses : ∀ mid, Parses nesting (room - 1) members source mid language {.symbol .braceClose}ᶜ)
    (after : ∀ nodes mid, Parses nesting (room - 1) (next before.cursor.current nodes) source mid
      other avoid) :
    Parses nesting room (opener >>= fun opening => enclosed members opening.span >>= next opening)
      source before (mark .braceOpen * (language * mark .braceClose) * other) avoid := by
  let list : Parser (List NodeId) := fun source before =>
    enclosed members before.cursor.current.span source { before with cursor := before.cursor.advance }
  have list_ok : Parses nesting room list source before
      (mark .braceOpen * (language * mark .braceClose)) ∅ :=
    parses_enclosed current rfl stops (parses _)
  have same : (opener >>= fun opening => enclosed members opening.span >>= next opening) source
      before = (list >>= next before.cursor.current) source before :=
    (bind_of_ok opens).trans (bind_eq_of_eq _ rfl)
  refine .congr same ?_
  refine list_ok.bind (fun nodes mid word _ reads _ null => ?_) .nothing
  have consumed : word ≠ [] := fun empty => by
    obtain ⟨body, -, absurd⟩ := mem_braces.mp (null empty)
    cases absurd
  have := List.length_pos_of_ne_nil consumed
  exact (after nodes mid).less (by omega)

/-- The same if the current token may be another one. -/
theorem expectBraced {next : Token → List NodeId → Parser α} (stops : StopsAtBrace members)
    (parses : ∀ mid, Parses nesting (room - 1) members source mid language {.symbol .braceClose}ᶜ)
    (after : ∀ opening nodes mid, Parses nesting (room - 1) (next opening nodes) source mid other avoid) :
    Parses nesting room (expectSymbol .braceOpen >>= fun opening =>
        enclosed members opening.span >>= next opening)
      source before (mark .braceOpen * (language * mark .braceClose) * other) avoid := by
  by_cases current : before.cursor.kind = .symbol .braceOpen
  · exact .braced current (expect_ok current) stops parses (after _)
  · obtain ⟨error, ran, found⟩ := expect_error current
    refine .fail (bind_of_error ran) found ?_
    rw [mul_assoc]
    exact .token fun same => current (Set.mem_singleton_iff.mp same).symm

end Parses

def memberRound (member : Parser Unit) : Parser (Round Unit Unit) := do
  flushComments
  if (← isAt (.symbol .braceClose)) || (← isAtEnd) then
    return .done ()
  member
  return .again ()

theorem bracedMembers_eq (statement : Parser Unit) (opening : Span) :
    bracedMembers statement opening = enclosed (loop () fun _ => memberRound statement) opening :=
  rfl

/-- What is true where a round says that a loop is done is true where the loop is done. -/
theorem loop_done {σ : Type} {start : σ} {round : σ → Parser (Round σ α)} (post : State → Prop)
    (step : ∀ state before result after,
      round state source before = some (.ok (.done result), after) → post after)
    {result : α} (ran : loop start round source before = some (.ok result, after)) : post after := by
  have within (count : Nat) (state : σ) (before : State)
      (ran : rounds round count state source before = some (.ok result, after)) : post after := by
    induction count generalizing state before with
    | zero => cases ran
    | succ count ih =>
      rw [rounds] at ran
      obtain ⟨again | result, mid, first, rest⟩ := ok_of_bind ran
      · exact ih again mid rest
      · cases rest
        exact step state before result after first
  exact within source.budget start before ran

/-- Comments are taken, and then it depends on the current token. -/
theorem memberRound_apply (member : Parser Unit) (source : Source) (before : State) :
    ∃ mid, before.Reads [] mid ∧ before.Nests [] 0 mid ∧ before.IsSilent mid ∧
      (mid.IsAtListEnd → memberRound member source before = some (.ok (.done ()), mid)) ∧
      (¬ mid.IsAtListEnd →
        memberRound member source before = (do member; return Round.again ()) source mid) := by
  obtain ⟨_, mid, flushed, reads, nests, silent⟩ := idle_flushComments source before
  have ran : memberRound member source before =
      (if mid.cursor.isAt (.symbol .braceClose) || mid.cursor.isAtEnd then return Round.done ()
        else do member; return Round.again () : Parser (Round Unit Unit)) source mid := by
    rw [memberRound, bind_of_ok flushed]
    rfl
  have decides : (mid.cursor.isAt (.symbol .braceClose) || mid.cursor.isAtEnd) = true ↔
      mid.IsAtListEnd := by
    rw [Bool.or_eq_true, Cursor.isAt_iff, Cursor.isAtEnd_iff, State.IsAtListEnd]
  refine ⟨mid, reads, nests, silent, fun ended => ?_, fun inside => ?_⟩
  · rw [ran, if_pos (decides.mpr ended)]
    rfl
  · rw [ran, if_neg (decides.not.mpr inside)]

theorem again_ne_done {member : Parser Unit} {result : Unit} (before : State) :
    (do member; return Round.again ()) source before ≠ some (.ok (.done result), after) := by
  intro ran
  obtain ⟨_, _, -, ⟨⟩⟩ := ok_of_bind ran

theorem stopsAtBrace (member : Parser Unit) : StopsAtBrace (loop () fun _ => memberRound member) := by
  intro source before after ran
  refine loop_done State.IsAtListEnd (fun _ before result after ran => ?_) ran
  obtain ⟨mid, -, -, -, ended, inside⟩ := memberRound_apply member source before
  by_cases here : mid.IsAtListEnd
  · cases (ended here).symm.trans ran
    exact here
  · rw [inside here] at ran
    exact absurd ran (again_ne_done _)

def startsMember : TokenKind → Bool
  | .symbol .braceClose | .endOfFile => false
  | _ => true

theorem State.IsAtListEnd.startsMember_eq (ended : before.IsAtListEnd) :
    startsMember before.cursor.kind = false := by
  rcases ended with here | ended
  · rw [here]
    rfl
  · rw [ended]
    rfl

theorem Parses.memberRound {member : Parser Unit} {next : Round Unit Unit → Parser α}
    (opens : Opens language startsMember)
    (again : ∀ mid, ¬ mid.IsAtListEnd → Parses nesting room (do member; next (.again ())) source mid
      language {.symbol .braceClose}ᶜ)
    (done : ∀ mid, Parses nesting room (next (.done ())) source mid 1 {.symbol .braceClose}ᶜ) :
    Parses nesting room (Parser.memberRound member >>= next) source before (1 + language)
      {.symbol .braceClose}ᶜ := by
  obtain ⟨mid, reads, nests, silent, ended, inside⟩ := memberRound_apply member source before
  rw [← one_mul (1 + language)]
  by_cases here : mid.IsAtListEnd
  · refine .step (bind_of_ok (ended here)) reads nests silent ?_
    exact (done mid).left (opens.precedes fun kind same => same ▸ here.startsMember_eq)
  · have same : (Parser.memberRound member >>= next) source before =
        (do member; next (.again ())) source mid := by
      rw [bind_eq_of_eq next (inside here), bind_assoc]
      rfl
    refine .step same reads nests silent ?_
    refine (again mid here).right (.one ?_)
    rintro _ rfl same
    exact here (.inl same)

end Parser

end IncrementalFrontend
