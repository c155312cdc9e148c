import IncrementalFrontend.Proofs.Parser.Containment
import IncrementalFrontend.Proofs.Parser.Openings
import IncrementalFrontend.Proofs.Token.Coverage

/-!
The course of a text: which statements began, which of them failed, and which lists in braces were
read, in this order. A statement without a list is one step; a list is as many steps as it has members.
-/
namespace IncrementalFrontend

namespace Parser

variable {source : Source} {before inside mid stop failure after : State} {list : BraceList}
  {outcome : Except ParseError Unit} {error : ParseError}

inductive Event where
  | began (start : State)
  | failed (start : State) (error : ParseError) (failure after : State)
  | enclosed (start : State) (list : BraceList) (stop after : State)

inductive Scope where
  | text
  | braces (member : Member)

namespace Scope

def member : Scope → Member
  | .text => .statement
  | .braces member => member

def Ends : Scope → State → Prop
  | .text, state => state.cursor.kind = .endOfFile
  | .braces _, state => state.IsAtListEnd

instance (scope : Scope) (state : State) : Decidable (scope.Ends state) :=
  match scope with
  | .text => inferInstanceAs (Decidable (state.cursor.kind = .endOfFile))
  | .braces _ => inferInstanceAs (Decidable (_ ∨ _))

theorem Ends.of_endOfFile {scope : Scope} (ended : before.cursor.kind = .endOfFile) :
    scope.Ends before := by
  cases scope with
  | text => exact ended
  | braces member => exact .inr ended

def round (statement : Parser Unit) : Scope → Parser (Round Unit Unit)
  | .text => do
    flushComments
    if ← isAtEnd then
      return .done ()
    statement
    return .again ()
  | .braces member => memberRound (member.parser statement)

variable {statement : Parser Unit} {scope : Scope}

theorem round_eq (scope : Scope) : scope.round statement source before =
    if scope.Ends (before.flush source) then some (.ok (.done ()), before.flush source)
    else (do scope.member.parser statement; return Round.again ()) source (before.flush source) := by
  let goesOn (ended : Bool) : Parser (Round Unit Unit) :=
    if ended then return .done () else do scope.member.parser statement; return .again ()
  have decides (ended : Bool) (same : ended = true ↔ scope.Ends (before.flush source)) :
      goesOn ended source (before.flush source) =
        if scope.Ends (before.flush source) then some (.ok (.done ()), before.flush source)
        else (do scope.member.parser statement; return Round.again ()) source
          (before.flush source) := by
    by_cases here : scope.Ends (before.flush source)
    · rw [if_pos here, same.mpr here]
      rfl
    · rw [if_neg here, Bool.eq_false_iff.mpr (same.not.mpr here)]
      rfl
  cases scope with
  | text =>
    rw [round, bind_of_ok (flushComments_apply ..)]
    exact decides (before.flush source).cursor.isAtEnd Cursor.isAtEnd_iff
  | braces member =>
    rw [round, memberRound, bind_of_ok (flushComments_apply ..)]
    refine decides ((before.flush source).cursor.isAt (.symbol .braceClose) ||
      (before.flush source).cursor.isAtEnd) ?_
    rw [Bool.or_eq_true, Cursor.isAt_iff, Cursor.isAtEnd_iff, Ends, State.IsAtListEnd]

end Scope

inductive Part where
  | one (member : Member)
  | all (scope : Scope)

structure State.IsFresh (state : State) : Prop where
  waiting : state.cursor.waiting = []
  inside : state.cursor.kind ≠ .endOfFile

def State.Recovers (source : Source) (start : State) (error : ParseError) (failure after : State) :
    Prop :=
  recover start.cursor.position start.cursor.current.span start.builder.depth error source failure =
    some (.ok (), after)

def State.IsBare (source : Source) (state : State) : Prop :=
  ∀ list inside, opener source state ≠ some (.ok list, inside)

structure State.ComesTo (source : Source) (state : State) (list : BraceList) (inside : State) :
    Prop where
  opens : opener source state = some (.ok list, inside)
  rest : ∀ statement, construct statement source state =
    list.rest statement state.cursor.current.span source inside

/-- How a part of a text is read, with all that happens. -/
inductive Runs (source : Source) :
    Part → State → List Event → Except ParseError Unit → State → Prop where
  | plain {before after : State} (fresh : before.IsFresh) (bare : before.IsBare source)
      (ran : ∀ statement, construct statement source before = some (.ok (), after)) :
      Runs source (.one .statement) before [.began before] (.ok ()) after
  | failed {before failure after : State} {error : ParseError} (fresh : before.IsFresh)
      (bare : before.IsBare source)
      (ran : ∀ statement, construct statement source before = some (.error error, failure))
      (recovers : before.Recovers source error failure after) :
      Runs source (.one .statement) before [.began before, .failed before error failure after]
        (.ok ()) after
  | enclosed {before inside stop after : State} {list : BraceList} {log : List Event}
      (fresh : before.IsFresh) (comes : before.ComesTo source list inside)
      (members : Runs source (.all (.braces list.member)) inside.openScope log (.ok ()) stop)
      (finishes : list.finish before.cursor.current.span stop.builder.closeScope.1 source
        (stop.close source list.opening) = some (.ok (), after)) :
      Runs source (.one .statement) before
        (.began before :: log ++ [.enclosed before list stop after]) (.ok ()) after
  | broken {before inside failure after : State} {list : BraceList} {error : ParseError}
      {log : List Event} (fresh : before.IsFresh) (comes : before.ComesTo source list inside)
      (members : Runs source (.all (.braces list.member)) inside.openScope log (.error error) failure)
      (recovers : before.Recovers source error failure after) :
      Runs source (.one .statement) before
        (.began before :: log ++ [.failed before error failure after]) (.ok ()) after
  | element {before after : State} {name : Name} {outcome : Except ParseError Unit}
      (fresh : before.IsFresh) (ran : enumElement name source before = some (outcome, after)) :
      Runs source (.one (.element name)) before [] outcome after
  | done {before : State} {scope : Scope} (ends : scope.Ends (before.flush source)) :
      Runs source (.all scope) before [] (.ok ()) (before.flush source)
  | more {before mid after : State} {scope : Scope} {log rest : List Event}
      {outcome : Except ParseError Unit} (further : ¬ scope.Ends (before.flush source))
      (first : Runs source (.one scope.member) (before.flush source) log (.ok ()) mid)
      (others : Runs source (.all scope) mid rest outcome after) :
      Runs source (.all scope) before (log ++ rest) outcome after
  | stop {before after : State} {scope : Scope} {log : List Event} {error : ParseError}
      (further : ¬ scope.Ends (before.flush source))
      (first : Runs source (.one scope.member) (before.flush source) log (.error error) after) :
      Runs source (.all scope) before log (.error error) after

theorem State.isFresh_flush {scope : Scope} (further : ¬ scope.Ends (before.flush source)) :
    (before.flush source).IsFresh :=
  ⟨rfl, fun ended => further (.of_endOfFile ended)⟩

/-- If each member has a course, then all members have one. -/
theorem runs_of_rounds {statement : Parser Unit} {scope : Scope} {count : Nat}
    (each : ∀ before outcome after, before.IsFresh →
      scope.member.parser statement source before = some (outcome, after) →
      ∃ log, Runs source (.one scope.member) before log outcome after)
    (ran : rounds (fun _ => scope.round statement) count () source before = some (outcome, after)) :
    ∃ log, Runs source (.all scope) before log outcome after := by
  induction count generalizing before with
  | zero => cases ran
  | succ count ih =>
    rw [rounds] at ran
    by_cases ended : scope.Ends (before.flush source)
    · rw [bind_of_ok ((scope.round_eq).trans (if_pos ended))] at ran
      cases ran
      exact ⟨[], .done ended⟩
    · rw [bind_eq_of_eq _ ((scope.round_eq).trans (if_neg ended)), bind_assoc] at ran
      obtain ⟨error, failed, rfl⟩ | ⟨_, mid, first, ran⟩ := ran_of_bind ran
      · obtain ⟨log, runs⟩ := each _ _ after (State.isFresh_flush ended) failed
        exact ⟨log, .stop ended runs⟩
      · obtain ⟨log, runs⟩ := each _ _ mid (State.isFresh_flush ended) first
        obtain ⟨rest, others⟩ := ih ran
        exact ⟨log ++ rest, .more ended runs others⟩

theorem BraceList.isSome_finish (start : Span) (members : List NodeId) (before : State) :
    ∃ after, list.finish start members source before = some (.ok (), after) := by
  rw [BraceList.finish]
  cases list.complaint with
  | none => exact ⟨_, rfl⟩
  | some message => exact ⟨_, rfl⟩

theorem State.exists_comesTo (source : Source) (before : State) :
    before.IsBare source ∨ ∃ list inside, before.ComesTo source list inside := by
  obtain ⟨opened, -⟩ := @splits_construct source before
  by_cases bare : before.IsBare source
  · exact .inl bare
  · simp only [State.IsBare, not_forall, ne_eq, not_not] at bare
    obtain ⟨list, inside, opens⟩ := bare
    exact .inr ⟨list, inside, opens, (opened list inside opens).2⟩

/-- If the statements in lists have a course, then the statement around them has one. -/
theorem runs_of_recovering {statement : Parser Unit}
    (each : ∀ before outcome after, before.IsFresh → statement source before = some (outcome, after) →
      ∃ log, Runs source (.one .statement) before log outcome after)
    (fresh : before.IsFresh)
    (ran : recoveringStatement statement source before = some (outcome, after)) :
    ∃ log, Runs source (.one .statement) before log outcome after := by
  have members (member : Member) (before : State) (outcome : Except ParseError Unit) (after : State)
      (ran : member.list statement source before = some (outcome, after)) :
      ∃ log, Runs source (.all (.braces member)) before log outcome after := by
    have rounds : rounds (fun _ => (Scope.braces member).round statement) source.budget () source
      before = some (outcome, after) := ran
    refine runs_of_rounds (fun before outcome after fresh ran => ?_) rounds
    cases member with
    | statement => exact each before outcome after fresh ran
    | element name => exact ⟨[], .element fresh ran⟩
  cases start : construct statement source before with
  | none => cases (recoveringStatement_none start).symm.trans ran
  | some middle =>
    obtain ⟨ended, mid⟩ := middle
    -- the parser of statements is used in a list only
    rcases before.exists_comesTo source with bare | ⟨list, inside, comes⟩
    · obtain ⟨others, -⟩ := (splits_construct before).plain bare statement ended mid start
      cases ended with
      | ok _ =>
        cases (recoveringStatement_ok start).symm.trans ran
        exact ⟨_, .plain fresh bare others⟩
      | error error =>
        rw [recoveringStatement_error start] at ran
        obtain ⟨rfl, -⟩ := recover_ran ran
        exact ⟨_, .failed fresh bare others ran⟩
    · have rest := (comes.rest statement).symm.trans start
      rw [BraceList.rest] at rest
      obtain ⟨_, failed, rfl⟩ | ⟨nodes, closed, ends, rest⟩ := ran_of_bind rest
      · obtain ⟨_, failed, ⟨⟩⟩ | ⟨_, _, ⟨⟩, _⟩ := enclosed_ran failed
        rw [recoveringStatement_error start] at ran
        obtain ⟨rfl, -⟩ := recover_ran ran
        obtain ⟨log, runs⟩ := members _ _ _ _ failed
        exact ⟨_, .broken fresh comes runs ran⟩
      · obtain ⟨_, _, ⟨⟩⟩ | ⟨stop, first, ⟨⟩, rfl⟩ := enclosed_ran ends
        obtain ⟨last, finishes⟩ := @BraceList.isSome_finish source list
          before.cursor.current.span stop.builder.closeScope.1 (stop.close source list.opening)
        cases finishes.symm.trans rest
        cases (recoveringStatement_ok start).symm.trans ran
        obtain ⟨log, runs⟩ := members _ _ _ _ first
        exact ⟨_, .enclosed fresh comes runs rest⟩

theorem runs_of_unroll (depth : Nat) (fresh : before.IsFresh)
    (ran : unroll recoveringStatement depth source before = some (outcome, after)) :
    ∃ log, Runs source (.one .statement) before log outcome after := by
  induction depth generalizing before outcome after with
  | zero => cases ran
  | succ depth ih => exact runs_of_recovering (fun _ _ _ fresh ran => ih fresh ran) fresh ran

theorem runs_of_program (ran : program source before = some (outcome, after)) :
    ∃ log, Runs source (.all .text) before log outcome after := by
  have rounds : rounds (fun _ => Scope.text.round statement) source.budget () source before =
    some (outcome, after) := ran
  refine runs_of_rounds (fun before outcome after fresh ran => ?_) rounds
  have unrolled : unroll recoveringStatement source.budget source before = some (outcome, after) := ran
  exact runs_of_unroll source.budget fresh unrolled

/-- A part of a text has one course. -/
theorem Runs.unique {part : Part} {log log' : List Event} {outcome' : Except ParseError Unit}
    {after' : State} (runs : Runs source part before log outcome after)
    (other : Runs source part before log' outcome' after') :
    log' = log ∧ outcome' = outcome ∧ after' = after := by
  induction runs generalizing log' outcome' after' with
  | plain fresh bare ran =>
    cases other with
    | plain _ _ ran' =>
      cases (ran exhausted).symm.trans (ran' exhausted)
      exact ⟨rfl, rfl, rfl⟩
    | failed _ _ ran' => cases (ran exhausted).symm.trans (ran' exhausted)
    | enclosed _ comes | broken _ comes => exact absurd comes.opens (bare _ _)
  | failed fresh bare ran recovers =>
    cases other with
    | plain _ _ ran' => cases (ran exhausted).symm.trans (ran' exhausted)
    | failed _ _ ran' recovers' =>
      cases (ran exhausted).symm.trans (ran' exhausted)
      cases Eq.trans (Eq.symm recovers) recovers'
      exact ⟨rfl, rfl, rfl⟩
    | enclosed _ comes | broken _ comes => exact absurd comes.opens (bare _ _)
  | enclosed fresh comes members finishes ih =>
    cases other with
    | plain _ bare | failed _ bare => exact absurd comes.opens (bare _ _)
    | enclosed _ comes' members' finishes' =>
      cases comes.opens.symm.trans comes'.opens
      obtain ⟨rfl, -, rfl⟩ := ih members'
      cases finishes.symm.trans finishes'
      exact ⟨rfl, rfl, rfl⟩
    | broken _ comes' members' =>
      cases comes.opens.symm.trans comes'.opens
      cases (ih members').2.1
  | broken fresh comes members recovers ih =>
    cases other with
    | plain _ bare | failed _ bare => exact absurd comes.opens (bare _ _)
    | enclosed _ comes' members' =>
      cases comes.opens.symm.trans comes'.opens
      cases (ih members').2.1
    | broken _ comes' members' recovers' =>
      cases comes.opens.symm.trans comes'.opens
      obtain ⟨rfl, ⟨⟩, rfl⟩ := ih members'
      cases Eq.trans (Eq.symm recovers) recovers'
      exact ⟨rfl, rfl, rfl⟩
  | element fresh ran =>
    cases other with
    | element _ ran' =>
      cases ran.symm.trans ran'
      exact ⟨rfl, rfl, rfl⟩
  | done ends =>
    cases other with
    | done => exact ⟨rfl, rfl, rfl⟩
    | more further | stop further => exact absurd ends further
  | more further first others ih ih' =>
    cases other with
    | done ends => exact absurd ends further
    | more _ first' others' =>
      obtain ⟨rfl, -, rfl⟩ := ih first'
      obtain ⟨rfl, rfl, rfl⟩ := ih' others'
      exact ⟨rfl, rfl, rfl⟩
    | stop _ first' => cases (ih first').2.1
  | stop further first ih =>
    cases other with
    | done ends => exact absurd ends further
    | more _ first' => cases (ih first').2.1
    | stop _ first' => exact ih first'

/-- The parser stops at the last token, which is the end of the file. -/
theorem position_of_program {tokens init : List TokenEntry} {last : TokenEntry} {builder : Builder}
    (same : tokens = init ++ [last]) (others : ∀ entry ∈ init, entry.token.kind ≠ .endOfFile)
    (ends : last.token.kind = .endOfFile) (few : tokens.length < source.budget)
    (ran : program source ⟨.ofTokens tokens, builder⟩ = some (outcome, after)) :
    after.cursor.position + 1 = tokens.length := by
  subst same
  let start : State := ⟨.ofTokens (init ++ [last]), builder⟩
  have kinds : start.cursor.kinds = init.map (·.token.kind) ++ [.endOfFile] := by
    simp [start, Cursor.kinds, Cursor.ofTokens, ends]
  have fits : start.cursor.kinds.length < source.budget := by
    rw [kinds]
    simpa using few
  obtain ⟨stop, word, ran', ended, reads, -⟩ := program_ran fits
  cases ran.symm.trans ran'
  have inside : ∀ kind ∈ init.map (·.token.kind), decide (kind ≠ .endOfFile) = true := by
    simpa using others
  have same := reads.takeWhile_kinds ended
  rw [kinds, List.takeWhile_append_of_pos inside] at same
  have position : after.cursor.position = 0 + word.length := reads.position
  rw [position, ← same]
  simp

end Parser

namespace SourceUnit

variable (unit : SourceUnit) (text : String) (names : Interner)

def parserSource : Parser.Source :=
  ⟨.ofText text, (TokenList.ofText text names).2, (TokenList.ofText text names).1.entries.length + 2⟩

def parserStart : Parser.State :=
  let tokens := (TokenList.ofText text names).1
  let lexical := tokens.errors.map fun error =>
    error.diagnostic ((LineIndex.ofText text).location unit.path error.span)
  ⟨.ofTokens tokens.entries, { Builder.ofUnit unit with diagnostics := lexical.toArray }⟩

/-- The course of a text from its start to the last state, which holds what is parsed. -/
structure HasCourse (log : List Parser.Event) (last : Parser.State) : Prop where
  runs : Parser.Runs (parserSource text names) (.all .text) (unit.parserStart text names) log (.ok ())
    last
  parsed : (unit.parse text names).1 = ⟨last.builder.tree, last.builder.diagnostics.toList⟩
  position : last.cursor.position + 1 = (TokenList.ofText text names).1.entries.length

theorem exists_course : ∃ log last, unit.HasCourse text names log last := by
  let tokens := (TokenList.ofText text names).1
  obtain ⟨last, ran, built⟩ := Parser.buildTokens_ran tokens.entries (.ofText text)
    (TokenList.ofText text names).2 (unit.parserStart text names).builder
  obtain ⟨log, runs⟩ := Parser.runs_of_program ran
  obtain ⟨init, comments, same, others⟩ := (TokenList.standsWithin_ofText text names).ended
  have few : tokens.entries.length < tokens.entries.length + 2 := by omega
  refine ⟨log, last, runs, ?_, Parser.position_of_program same others rfl few ran⟩
  rw [← built]
  rfl

variable {unit text names} {log : List Parser.Event} {last : Parser.State}

theorem HasCourse.unique {log' : List Parser.Event} {last' : Parser.State}
    (course : unit.HasCourse text names log last) (other : unit.HasCourse text names log' last') :
    log' = log ∧ last' = last := by
  obtain ⟨events, -, ended⟩ := course.runs.unique other.runs
  exact ⟨events, ended⟩

theorem HasCourse.nodes_eq (course : unit.HasCourse text names log last) :
    (unit.parse text names).1.tree.nodes = last.builder.nodes := by
  rw [course.parsed]
  rfl

/-- Where tokens of a text stand. -/
theorem place_eq {state : Parser.State} (extends_ : (unit.parserStart text names).Extends state)
    (first last : Nat) : state.place (parserSource text names) first last =
      (LineIndex.ofText text).location unit.path
        (extent (TokenList.ofText text names).1.entries first last) := by
  rw [extends_.place_eq]
  rfl

end SourceUnit

end IncrementalFrontend
