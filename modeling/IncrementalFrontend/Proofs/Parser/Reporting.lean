import IncrementalFrontend.Proofs.Parser.Growth
import IncrementalFrontend.Proofs.Token.Extents

/-!
Reports on a text. Each failure is reported once, by the parser or, at an invalid token, by the lexer,
and leaves an erroneous node that covers the token in the way.
-/
namespace IncrementalFrontend

namespace Parser

variable {source : Source} {before inside mid stop failure after last : State} {list : BraceList}
  {error : ParseError} {log : List Event} {part : Part} {outcome : Except ParseError Unit}
  {p : Node → Bool}

namespace Event

def erroneous? (source : Source) : Event → Option (PlacedNode × NodeId)
  | .failed start _ failure last => some (⟨.erroneous,
      last.place source start.cursor.position (last.cursor.position - 1)⟩, failure.builder.nodes.size)
  | _ => none

def owner? (source : Source) : Event → Option (PlacedNode × NodeId)
  | .enclosed start list stop last => some (⟨list.node stop.builder.innermost,
      last.place source start.cursor.position (last.cursor.position - 1)⟩, stop.builder.nodes.size)
  | _ => none

def node? (source : Source) (event : Event) : Option (PlacedNode × NodeId) :=
  (event.erroneous? source).or (event.owner? source)

def nodeWhere? (source : Source) (p : Node → Bool) (event : Event) : Option (PlacedNode × NodeId) :=
  (event.node? source).filter (p ·.1.node)

@[simp] theorem nodeWhere?_failed (start : State) : (failed start error failure last).nodeWhere? source p =
    if p .erroneous then some (⟨.erroneous,
      last.place source start.cursor.position (last.cursor.position - 1)⟩, failure.builder.nodes.size)
    else none :=
  rfl

@[simp] theorem nodeWhere?_enclosed (start : State) :
    (enclosed start list stop last).nodeWhere? source p =
      if p (list.node stop.builder.innermost) then some (⟨list.node stop.builder.innermost,
        last.place source start.cursor.position (last.cursor.position - 1)⟩, stop.builder.nodes.size)
      else none :=
  rfl

/-- What is reported on an event: the error, unless the lexer reported it, a brace that is missing at
the end of the file, and a body that is not allowed. -/
def diagnostics (source : Source) : Event → List Diagnostic
  | .began _ => []
  | .failed _ error failure _ =>
    if error.found? = some .invalid then []
    else [error.diagnostic (source.lines.location failure.builder.path error.span)]
  | .enclosed start list stop last =>
    (if stop.cursor.kind = .symbol .braceClose then [] else [unclosedBrace source stop list.opening]) ++
      list.complaint.toList.map fun message => forbiddenBody message
        (last.place source start.cursor.position (last.cursor.position - 1))

end Event

theorem State.Enters.placedWhere (enters : before.Enters source after)
    (plain : ∀ node : Node, node.isPlain → p node = false) :
    placedWhere p after.builder.nodes = placedWhere p before.builder.nodes :=
  enters.fits.placedWhere fun id placed new here => plain placed.node (enters.plain id placed new here)

theorem State.Notes.placedWhere {comments : List Comment} (notes : before.Notes source comments after)
    (other : ∀ text style, p (.comment text style) = false) :
    placedWhere p after.builder.nodes = placedWhere p before.builder.nodes := by
  refine notes.grows.fits.placedWhere fun id placed new here => ?_
  obtain ⟨comment, -, rfl⟩ := notes.exists_comment new here
  exact other comment.text comment.style

theorem State.Recovered.placedWhere {start : State}
    (recovered : start.Recovered source error failure after) :
    placedWhere p after.builder.nodes = placedWhere p failure.builder.nodes ++
      ((Event.failed start error failure after).nodeWhere? source p).toList := by
  rw [placedWhere_push recovered.nodes]
  cases same : p .erroneous <;> simp [same]

theorem State.Completes.placedWhere {start : State}
    (complete : start.Completes source list stop after) :
    placedWhere p after.builder.nodes = placedWhere p stop.builder.nodes ++
      ((Event.enclosed start list stop after).nodeWhere? source p).toList := by
  rw [placedWhere_push complete.nodes]
  cases same : p (list.node stop.builder.innermost) <;> simp [same]

/-- What a statement with a list leaves: what its members leave, and then its own. -/
theorem filterMap_statement {α : Type} {f : Event → Option α} {start : State} {event : Event}
    (began : f (.began start) = none) :
    (.began start :: log ++ [event]).filterMap f = log.filterMap f ++ (f event).toList := by
  rw [List.filterMap_append, List.filterMap_cons, began]
  cases same : f event <;> simp [same]

/-- Nodes that a statement without a list does not make are made in the order of the events. -/
theorem Runs.placedWhere (runs : Runs source part before log outcome after)
    (plain : ∀ node : Node, node.isPlain → p node = false)
    (comment : ∀ text style, p (.comment text style) = false) :
    placedWhere p after.builder.nodes =
      placedWhere p before.builder.nodes ++ log.filterMap (Event.nodeWhere? source p) := by
  have began (start : State) : (Event.began start).nodeWhere? source p = none := rfl
  have opens {before inside : State} {list : BraceList} (comes : before.ComesTo source list inside) :
      Parser.placedWhere p inside.openScope.builder.nodes =
        Parser.placedWhere p before.builder.nodes :=
    comes.opened.holds.drafts.fits.placedWhere fun id placed new here =>
      plain placed.node (Node.isPlain_of_inner (comes.opened.holds.drafts.inner id placed new here))
  induction runs with
  | plain fresh bare ran => simpa [began] using (enters_of_bare bare ran).2.placedWhere plain
  | failed fresh bare ran recovers =>
    have recovered := recovered_of_bare fresh bare ran recovers
    rw [recovered.placedWhere, (enters_of_bare bare ran).2.placedWhere plain]
    exact congrArg _ (@filterMap_statement [] _ _ _ _ (began _)).symm
  | enclosed fresh comes members finishes ih =>
    have complete := members.completes comes finishes
    rw [complete.placedWhere, ih, opens comes, filterMap_statement (began _), List.append_assoc]
  | broken fresh comes members recovers ih =>
    have recovered := members.recovered comes fresh recovers
    rw [recovered.placedWhere, ih, opens comes, filterMap_statement (began _), List.append_assoc]
  | element fresh ran =>
    obtain ⟨last, -, enters, rfl | rfl⟩ := enumElement_ran ran
    · simpa using enters.placedWhere plain
    · simpa using ((notes_flush source last).placedWhere comment).trans (enters.placedWhere plain)
  | @done before scope ends => simpa using (notes_flush source before).placedWhere comment
  | @more before mid after scope log rest outcome further first others ih ih' =>
    rw [ih', ih, (notes_flush source before).placedWhere comment, List.filterMap_append,
      List.append_assoc]
  | @stop before after scope log error further first ih =>
    rw [ih, (notes_flush source before).placedWhere comment]

theorem State.toList_tell (source : Source) (error : ParseError) (start state last : State) :
    (state.tell source error).builder.diagnostics.toList = state.builder.diagnostics.toList ++
      (Event.failed start error state last).diagnostics source := by
  rw [State.tell, Event.diagnostics]
  split
  · exact (List.append_nil _).symm
  · exact Array.toList_push ..

/-- What is reported when a list was read to its end. -/
theorem State.Completes.diagnostics {start : State} (complete : start.Completes source list stop after) :
    after.builder.diagnostics.toList = stop.builder.diagnostics.toList ++
      (Event.enclosed start list stop after).diagnostics source := by
  have closed : (stop.close source list.opening).builder.diagnostics.toList =
      stop.builder.diagnostics.toList ++ if stop.cursor.kind = .symbol .braceClose then []
        else [unclosedBrace source stop list.opening] := by
    by_cases here : stop.cursor.kind = .symbol .braceClose
    · rw [State.close_of_closed here, if_pos here, List.append_nil]
      exact congrArg _ (Builder.diagnostics_closeScope _)
    · have pushed (diagnostic : Diagnostic) :
          (stop.builder.closeScope.2.report diagnostic).diagnostics.toList =
            stop.builder.diagnostics.toList ++ [diagnostic] := by
        rw [Builder.report, Builder.diagnostics_closeScope, Array.toList_push]
      rw [State.close, if_neg (Cursor.isAt_iff.not.mpr here), if_neg here]
      exact pushed _
  have there : after.cursor = (stop.close source list.opening).cursor := by
    obtain ⟨_, same⟩ := start.complain_eq source list (stop.close source list.opening)
    rw [complete.adds.cursor, State.complete, same]
  have place : (stop.close source list.opening).place source = after.place source := by
    rw [complete.extends_.place_eq, (stop.fits_close source list.opening).toExtends.place_eq]
  rw [complete.adds.silent, State.complete, State.complain, Event.diagnostics, ← List.append_assoc,
    ← closed, ← place, there]
  cases list.complaint with
  | none => exact (List.append_nil _).symm
  | some message => exact Array.toList_push ..

theorem Runs.diagnostics (runs : Runs source part before log outcome after) :
    after.builder.diagnostics.toList =
      before.builder.diagnostics.toList ++ log.flatMap (Event.diagnostics source) := by
  have began (start : State) : (Event.began start).diagnostics source = [] := rfl
  have opens {before inside : State} {list : BraceList} (comes : before.ComesTo source list inside) :
      inside.openScope.builder.diagnostics = before.builder.diagnostics :=
    comes.opened.holds.drafts.keeps.diagnostics
  induction runs with
  | plain fresh bare ran =>
    rw [(enters_of_bare bare ran).2.silent]
    exact (List.append_nil _).symm
  | @failed before failure after error fresh bare ran recovers =>
    rw [(recovered_of_bare fresh bare ran recovers).told, State.toList_tell source error before failure after,
      (enters_of_bare bare ran).2.silent]
    simp [began]
  | enclosed fresh comes members finishes ih =>
    rw [(members.completes comes finishes).diagnostics, ih, opens comes]
    simp [began]
  | @broken before inside failure after list error log fresh comes members recovers ih =>
    rw [(members.recovered comes fresh recovers).told, State.toList_tell source error before failure after,
      ih, opens comes]
    simp [began]
  | element fresh ran =>
    obtain ⟨last, -, enters, rfl | rfl⟩ := enumElement_ran ran
    · rw [enters.silent]
      exact (List.append_nil _).symm
    · rw [(notes_flush source last).silent, enters.silent]
      exact (List.append_nil _).symm
  | @done before scope ends =>
    rw [(notes_flush source before).silent]
    exact (List.append_nil _).symm
  | @more before mid after scope log rest outcome further first others ih ih' =>
    rw [ih', ih, (notes_flush source before).silent, List.flatMap_append, List.append_assoc]
  | @stop before after scope log error further first ih =>
    rw [ih, (notes_flush source before).silent]

/-- A statement without a list fails at the token that stood in the way. -/
theorem found_of_bare (budget : 0 < source.budget)
    (ran : ∀ statement, construct statement source before = some (.error error, failure)) :
    error.found? = some failure.cursor.kind := by
  have parses := @parses_construct_unroll source before 0 budget (parsesMembers_unroll 0 (Nat.zero_le _))
  obtain ⟨word, -, ends, -⟩ := parses.ran _ failure (ran _)
  exact ends.2

theorem found_of_element {name : Name}
    (ran : enumElement name source before = some (.error error, failure)) :
    error.found? = some failure.cursor.kind := by
  have opens : Opens (0 : Language TokenKind) startsMember := fun _ member => absurd member (Set.notMem_empty _)
  have parses : Parses nesting 0 (enumElement name >>= fun _ => pure ()) source before _ _ :=
    .enumElement (Nat.zero_le _) opens (add_zero _) (fun mid => .pure ()) name
  rw [bind_pure_unit] at parses
  obtain ⟨word, -, ends, -⟩ := parses.ran _ failure ran
  exact ends.2

/-- Only elements fail, and they tell the token that stood in the way. -/
theorem Runs.found (runs : Runs source part before log outcome after)
    (failed : outcome = .error error) : error.found? = some after.cursor.kind := by
  induction runs with
  | plain | failed | enclosed | broken | done => cases failed
  | element fresh ran =>
    subst failed
    exact found_of_element ran
  | more further first others ih ih' => exact ih' failed
  | stop further first ih => exact ih failed

/-- A list is read up to where it ends. -/
theorem Runs.ends {scope : Scope} (runs : Runs source (.all scope) before log (.ok ()) after) :
    scope.Ends after := by
  generalize whole : Part.all scope = part at runs
  generalize fine : (.ok () : Except ParseError Unit) = outcome at runs
  induction runs with
  | plain | failed | enclosed | broken | element => cases whole
  | done ends =>
    cases whole
    exact ends
  | more further first others ih ih' => exact ih' whole fine
  | stop further first ih => cases fine

/-- A failure is recovered from, and tells the token that stood in the way; an invalid one is passed
over. A list ends at a closing brace or at the end of the file. -/
def Event.IsSound (source : Source) : Event → Prop
  | .began _ => True
  | .failed start error failure last => start.Recovers source error failure last ∧
    error.found? = some failure.cursor.kind ∧
    (failure.cursor.kind = .invalid → failure.cursor.position < last.cursor.position)
  | .enclosed _ _ stop _ => stop.IsAtListEnd

theorem Runs.isSound (runs : Runs source part before log outcome after)
    (budget : 0 < source.budget) : ∀ event ∈ log, event.IsSound source := by
  have began (start : State) : (Event.began start).IsSound source := trivial
  induction runs with
  | plain fresh bare ran => exact List.forall_mem_singleton.mpr (began _)
  | failed fresh bare ran recovers =>
    have recovered := recovered_of_bare fresh bare ran recovers
    exact List.forall_mem_cons.mpr ⟨began _, List.forall_mem_singleton.mpr
      ⟨recovers, found_of_bare budget ran, recovered.swallows⟩⟩
  | enclosed fresh comes members finishes ih =>
    exact List.forall_mem_cons.mpr ⟨began _, List.forall_mem_append.mpr
      ⟨ih, List.forall_mem_singleton.mpr members.ends⟩⟩
  | broken fresh comes members recovers ih =>
    have recovered := members.recovered comes fresh recovers
    exact List.forall_mem_cons.mpr ⟨began _, List.forall_mem_append.mpr
      ⟨ih, List.forall_mem_singleton.mpr ⟨recovers, members.found rfl, recovered.swallows⟩⟩⟩
  | element fresh ran => exact List.forall_mem_nil _
  | done ends => exact List.forall_mem_nil _
  | more further first others ih ih' => exact List.forall_mem_append.mpr ⟨ih, ih'⟩
  | stop further first ih => exact ih

theorem code_of_found {kind : TokenKind} (location : Location) (found : error.found? = some kind) :
    (error.diagnostic location).code ≠ .invalidFunction := by
  obtain ⟨reason, span, note⟩ := error
  cases reason with
  | invalidFunction message => cases found
  | _ => exact DiagnosticCode.noConfusion

/-- Only lists that are not allowed are complained about, where their owners stand. -/
theorem Event.IsSound.map_location {event : Event} (sound : event.IsSound source) :
    ((event.diagnostics source).filter (·.code = .invalidFunction)).map (·.location) =
      ((event.nodeWhere? source Node.isForbidden).map (·.1.location)).toList := by
  cases event with
  | began start => rfl
  | failed start error failure last =>
    have other := code_of_found (source.lines.location failure.builder.path error.span) sound.2.1
    rw [diagnostics]
    split <;> simp [Node.isForbidden, other]
  | enclosed start list stop last =>
    have unclosed : (if stop.cursor.kind = .symbol .braceClose then []
        else [unclosedBrace source stop list.opening]).filter (·.code = .invalidFunction) = [] := by
      split <;> rfl
    rw [diagnostics, List.filter_append, unclosed]
    cases complaint : list.complaint with
    | none => simp [list.isForbidden_node, complaint]
    | some message => simp [list.isForbidden_node, complaint, forbiddenBody, Diagnostic.error]

theorem nodeWhere?_isErroneous (source : Source) :
    Event.nodeWhere? source Node.isErroneous = Event.erroneous? source := by
  funext event
  cases event with
  | began start => rfl
  | failed start error failure last => rfl
  | enclosed start list stop last =>
    have other := Node.isErroneous_of_isOwner (list.isOwner_node stop.builder.innermost)
    simp [Event.erroneous?, other]

theorem nodeWhere?_isOwner (source : Source) :
    Event.nodeWhere? source Node.isOwner = Event.owner? source := by
  funext event
  cases event with
  | began start => rfl
  | failed start error failure last => rfl
  | enclosed start list stop last =>
    have owns := list.isOwner_node stop.builder.innermost
    simp [Event.owner?, owns]

/-- The complaints are about the owners of lists that are not allowed. -/
theorem map_location_of_isSound (sound : ∀ event ∈ log, event.IsSound source) :
    ((log.flatMap (Event.diagnostics source)).filter (·.code = .invalidFunction)).map (·.location) =
      (log.filterMap (Event.nodeWhere? source Node.isForbidden)).map (·.1.location) := by
  induction log with
  | nil => rfl
  | cons event rest ih =>
    obtain ⟨first, others⟩ := List.forall_mem_cons.mp sound
    rw [List.flatMap_cons, List.filter_append, List.map_append, ih others, first.map_location]
    cases made : event.nodeWhere? source Node.isForbidden with
    | none => simp [made]
    | some placed => simp [made]

end Parser

namespace SourceUnit

open IncrementalFrontend.Parser

variable {unit : SourceUnit} {text : String} {names : Interner} {log : List Event} {last : State}

/-- The lexer reported an invalid token. -/
theorem exists_error {state : State} (extends_ : (unit.parserStart text names).Extends state)
    (invalid : state.cursor.kind = .invalid) : ∃ wrong ∈ (TokenList.ofText text names).1.errors,
      wrong.span = state.cursor.current.span := by
  have current : state.cursor.current =
      tokenAt (TokenList.ofText text names).1.entries state.cursor.position := by
    rw [Cursor.current_eq, extends_.tokens]
    rfl
  rw [current]
  exact (TokenList.standsWithin_ofText text names).exists_error
    ((congrArg Token.kind current).symm.trans invalid)

section

variable (course : unit.HasCourse text names log last)
include course

theorem HasCourse.diagnostics_eq : (unit.parse text names).1.diagnostics =
    (TokenList.ofText text names).1.errors.map (fun error =>
      error.diagnostic ((LineIndex.ofText text).location unit.path error.span)) ++
        log.flatMap (Event.diagnostics (parserSource text names)) := by
  rw [course.parsed]
  exact course.runs.diagnostics

theorem HasCourse.placedWhere_eq {p : Node → Bool} (plain : ∀ node : Node, node.isPlain → p node = false)
    (comment : ∀ text style, p (.comment text style) = false) :
    placedWhere p (unit.parse text names).1.tree.nodes =
      log.filterMap (Event.nodeWhere? (parserSource text names) p) := by
  rw [course.nodes_eq, course.runs.placedWhere plain comment]
  rfl

/-- Owners of lists come with the events of their lists. -/
theorem HasCourse.owners_eq : placedWhere Node.isOwner (unit.parse text names).1.tree.nodes =
    log.filterMap (Event.owner? (parserSource text names)) := by
  rw [course.placedWhere_eq (fun node plain => (Node.apart_of_isPlain plain).1) fun _ _ => rfl,
    nodeWhere?_isOwner]

/-- The complaints are about the functions that are defined elsewhere and have a body here. -/
theorem HasCourse.forbidden_eq :
    ((unit.parse text names).1.diagnostics.filter (·.code = .invalidFunction)).map (·.location) =
      (placedWhere Node.isForbidden (unit.parse text names).1.tree.nodes).map (·.1.location) := by
  have lexical : ((TokenList.ofText text names).1.errors.map fun error => error.diagnostic
      ((LineIndex.ofText text).location unit.path error.span)).filter (·.code = .invalidFunction) =
        [] := by
    refine List.filter_eq_nil_iff.mpr fun diagnostic member => ?_
    obtain ⟨⟨kind, span⟩, -, rfl⟩ := List.mem_map.mp member
    cases kind <;> exact Bool.false_ne_true
  have forbidden (node : Node) (plain : node.isPlain) : node.isForbidden = false :=
    Bool.eq_false_iff.mpr fun forbidden => Bool.false_ne_true <|
      (Node.apart_of_isPlain plain).1.symm.trans (Node.isOwner_of_isForbidden forbidden)
  rw [course.placedWhere_eq forbidden fun _ _ => rfl, course.diagnostics_eq, List.filter_append,
    lexical, List.nil_append]
  exact map_location_of_isSound (course.runs.isSound (Nat.succ_pos _))

/-- Where a failure is not reported by the parser, the erroneous node covers a token that the lexer
reported. -/
theorem HasCourse.exists_lexical {start failure stop : State} {error : ParseError}
    (member : .failed start error failure stop ∈ log) (invalid : failure.cursor.kind = .invalid) :
    ∃ wrong ∈ (TokenList.ofText text names).1.errors, wrong.span = failure.cursor.current.span ∧
      ((LineIndex.ofText text).location unit.path wrong.span).IsWithin
        (stop.place (parserSource text names) start.cursor.position (stop.cursor.position - 1)) := by
  obtain ⟨-, -, swallows⟩ := course.runs.isSound (Nat.succ_pos _) _ member
  obtain ⟨first, second, third, fourth⟩ := course.runs.isBetween _ member
  have there := first.trans second
  obtain ⟨wrong, inside, span⟩ := exists_error there invalid
  refine ⟨wrong, inside, span, ?_⟩
  have current : failure.cursor.current.span =
      spanAt (TokenList.ofText text names).1.entries failure.cursor.position := by
    rw [Cursor.current_eq, there.tokens]
    rfl
  rw [place_eq (there.trans third), span, current]
  have swallowed := swallows invalid
  have bound := course.position
  have latest := fourth.position
  exact (TokenList.areOrdered_ofText text names).isWithin_token (LineIndex.ofText text) unit.path
    second.position (by omega) (by omega)

end

variable (unit text names)

/-- Each failure is reported once. The lexical errors come first. -/
theorem failures_are_reported_once :
    let tokens := (TokenList.ofText text names).1
    let lines := LineIndex.ofText text
    let source := parserSource text names
    let parsed := (unit.parse text names).1
    ∃ log last, unit.HasCourse text names log last ∧
      parsed.diagnostics = tokens.errors.map (fun error =>
        error.diagnostic (lines.location unit.path error.span)) ++
          log.flatMap (Event.diagnostics source) ∧
      placedWhere Node.isErroneous parsed.tree.nodes = log.filterMap (Event.erroneous? source) ∧
      placedWhere Node.isOwner parsed.tree.nodes = log.filterMap (Event.owner? source) ∧
      (parsed.diagnostics.filter (·.code = .invalidFunction)).map (·.location) =
        (placedWhere Node.isForbidden parsed.tree.nodes).map (·.1.location) ∧
      (∀ start error failure stop, .failed start error failure stop ∈ log →
        start.Recovers source error failure stop ∧ error.found? = some failure.cursor.kind ∧
        (failure.cursor.kind = .invalid → ∃ wrong ∈ tokens.errors,
          wrong.span = failure.cursor.current.span ∧
          (lines.location unit.path wrong.span).IsWithin
            (stop.place source start.cursor.position (stop.cursor.position - 1)))) ∧
      ∀ start list stop after, .enclosed start list stop after ∈ log →
        stop.cursor.kind ≠ .symbol .braceClose → stop.cursor.kind = .endOfFile := by
  intro tokens lines source parsed
  obtain ⟨log, last, course⟩ := unit.exists_course text names
  have sound := course.runs.isSound (Nat.succ_pos _)
  refine ⟨log, last, course, course.diagnostics_eq, ?_, course.owners_eq, course.forbidden_eq, ?_, ?_⟩
  · rw [course.placedWhere_eq (fun node plain => (Node.apart_of_isPlain plain).2.1) fun _ _ => rfl,
      nodeWhere?_isErroneous]
  · intro start error failure stop member
    obtain ⟨recovers, found, -⟩ := sound _ member
    exact ⟨recovers, found, course.exists_lexical member⟩
  · intro start list stop after member unclosed
    exact (sound _ member).resolve_left unclosed

end SourceUnit

end IncrementalFrontend
