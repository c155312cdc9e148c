import IncrementalFrontend.Proofs.Parser.Course

/-!
What a course leaves behind. Every member is attached once, to the innermost list, in the order in
which it was made; a statement that failed leaves its members and an erroneous node.
-/
namespace IncrementalFrontend

namespace Builder

theorem innermost_foldl_attach (builder : Builder) (ids : List NodeId) :
    (ids.foldl attach builder).innermost = builder.innermost ++ ids := by
  induction ids generalizing builder with
  | nil => exact (List.append_nil _).symm
  | cons id rest ih => rw [List.foldl_cons, ih, innermost_attach, List.append_assoc, List.singleton_append]

theorem innermost_dissolveScope {builder : Builder} (opened : builder.depth ≠ 0) :
    builder.dissolveScope.innermost =
      (builder.stack.tail.headD #[]).toList ++ builder.innermost := by
  rw [dissolveScope, innermost_foldl_attach, closeScope_fst opened, innermost, stack_closeScope opened]

end Builder

namespace Parser

variable {source : Source} {start before inside mid stop failure after : State} {list : BraceList}
  {entries more : List NodeId} {error : ParseError} {log : List Event} {part : Part}
  {outcome : Except ParseError Unit}

/-- A single entry keeps any order. -/
theorem pairwise_of_length_le_one {r : NodeId → NodeId → Prop} (few : entries.length ≤ 1) :
    entries.Pairwise r := by
  match entries, few with
  | [], _ => exact .nil
  | [_], _ => exact List.pairwise_singleton ..

structure State.Grows (source : Source) (before : State) (entries : List NodeId) (after : State) :
    Prop where
  fits : before.Fits source after
  lists : before.Lists entries after
  made : ∀ id : Nat, id ∈ entries → before.builder.nodes.size ≤ id ∧ id < after.builder.nodes.size
  ordered : entries.Pairwise (· < ·)

namespace State.Grows

theorem of_fits (fits : before.Fits source after)
    (same : after.builder.stack = before.builder.stack) : before.Grows source [] after :=
  ⟨fits, .of_stack same, nofun, .nil⟩

theorem trans (first : before.Grows source entries mid) (second : mid.Grows source more after) :
    before.Grows source (entries ++ more) after where
  fits := first.fits.trans second.fits
  lists := first.lists.trans second.lists
  made id member := by
    have early := first.fits.size_le
    have late := second.fits.size_le
    rcases List.mem_append.mp member with old | new
    · obtain ⟨least, most⟩ := first.made id old
      exact ⟨least, Nat.lt_of_lt_of_le most late⟩
    · obtain ⟨least, most⟩ := second.made id new
      exact ⟨Nat.le_trans early least, most⟩
  ordered := by
    refine List.pairwise_append.mpr ⟨first.ordered, second.ordered, fun a old b new => ?_⟩
    exact Nat.lt_of_lt_of_le (first.made a old).2 (second.made b new).1

theorem of_enters (enters : before.Enters source after) :
    ∃ entries, entries.length ≤ 1 ∧ before.Grows source entries after := by
  obtain ⟨entries, few, lists, made⟩ := enters.listed
  exact ⟨entries, few, enters.fits, lists, made, pairwise_of_length_le_one few⟩

/-- A node that was added is the last entry. -/
theorem add {node : Node} (adds : start.Adds source mid node after)
    (lists : start.Lists entries mid) (ordered : entries.Pairwise (· < ·))
    (made : ∀ id : Nat, id ∈ entries → start.builder.nodes.size ≤ id ∧ id < mid.builder.nodes.size)
    (older : start.builder.nodes.size ≤ mid.builder.nodes.size) :
    start.Grows source (entries ++ [mid.builder.nodes.size]) after where
  fits := adds.fits
  lists := lists.trans adds.lists
  made id member := by
    rw [adds.nodes, Array.size_push]
    rcases List.mem_append.mp member with old | last
    · obtain ⟨least, most⟩ := made id old
      omega
    · obtain rfl := List.mem_singleton.mp last
      omega
  ordered := by
    refine List.pairwise_append.mpr ⟨ordered, List.pairwise_singleton .., fun a old b last => ?_⟩
    obtain rfl := List.mem_singleton.mp last
    exact (made a old).2

end State.Grows

def Source.note (source : Source) (path : Name) (comment : Comment) : PlacedNode :=
  ⟨.comment comment.text comment.style, source.lines.location path comment.span⟩

structure State.Notes (source : Source) (before : State) (comments : List Comment) (after : State) :
    Prop where
  nodes : after.builder.nodes.toList =
    before.builder.nodes.toList ++ comments.map (source.note before.builder.path)
  grows : before.Grows source (List.range' before.builder.nodes.size comments.length) after
  silent : before.IsSilent after

theorem notes_add (source : Source) (state : State) (comment : Comment) :
    state.Notes source [comment] { state with builder := (state.builder.add
      (.comment comment.text comment.style)
      (source.lines.location state.builder.path comment.span)).2 } := by
  let stored := (state.builder.store (.comment comment.text comment.style)
    (source.lines.location state.builder.path comment.span)).2
  let attached : State := { state with builder := stored.attach state.builder.nodes.size }
  have nodes : attached.builder.nodes =
    state.builder.nodes.push (source.note state.builder.path comment) := Builder.nodes_attach ..
  have unit : attached.builder.unit = state.builder.unit := Builder.unit_attach ..
  have lists := State.Lists.attach ⟨state.cursor, stored⟩ state.builder.nodes.size state.cursor
  change state.Notes source [comment] attached
  refine ⟨by rw [nodes, Array.toList_push]; rfl, ⟨⟨⟨rfl, Nat.le_refl _, unit, ?_⟩, ?_⟩, ?_, ?_, ?_⟩, ?_⟩
  · rw [nodes, Array.toList_push]
    exact List.prefix_append ..
  · intro id placed new here apart
    rw [nodes, Array.getElem?_push] at here
    split at here
    · obtain rfl := Option.some.inj here
      cases apart
    · have old := (Array.getElem?_eq_some_iff.mp here).1
      omega
  · exact ⟨lists.inner, lists.outer⟩
  · intro id member
    rw [nodes, Array.size_push]
    obtain rfl := List.mem_singleton.mp member
    exact ⟨Nat.le_refl _, Nat.lt_succ_self _⟩
  · exact List.pairwise_singleton ..
  · exact Builder.diagnostics_attach ..

theorem State.Notes.trans {comments rest : List Comment} (first : before.Notes source comments mid)
    (second : mid.Notes source rest after) : before.Notes source (comments ++ rest) after where
  nodes := by
    have path : mid.builder.path = before.builder.path := congrArg SourceUnit.path first.grows.fits.unit
    rw [second.nodes, first.nodes, path, List.append_assoc, List.map_append]
  grows := by
    have size := congrArg List.length first.nodes
    rw [Array.length_toList, List.length_append, Array.length_toList, List.length_map] at size
    have grows := first.grows.trans second.grows
    rw [size] at grows
    rwa [List.length_append, ← List.range'_append_1]
  silent := second.silent.trans first.silent

theorem State.Notes.exists_comment {comments : List Comment} (notes : before.Notes source comments after)
    {id : Nat} {placed : PlacedNode} (new : before.builder.nodes.size ≤ id)
    (here : after.builder.nodes[id]? = some placed) :
    ∃ comment ∈ comments, placed = source.note before.builder.path comment := by
  rw [← Array.getElem?_toList, notes.nodes, List.getElem?_append_right (by simpa using new)] at here
  obtain ⟨comment, member, rfl⟩ := List.mem_map.mp (List.mem_of_getElem? here)
  exact ⟨comment, member, rfl⟩

theorem notes_flush (source : Source) (before : State) :
    before.Notes source before.cursor.waiting (before.flush source) := by
  have attaches (comments : List Comment) (state : State) : state.Notes source comments
      { state with builder := comments.foldl (fun builder comment => (builder.add
        (.comment comment.text comment.style)
        (source.lines.location builder.path comment.span)).2) state.builder } := by
    induction comments generalizing state with
    | nil => exact ⟨(List.append_nil _).symm, .of_fits (.refl state) rfl, rfl⟩
    | cons comment rest ih => exact (notes_add source state comment).trans (ih _)
  let bare : State := ⟨before.cursor.clearComments, before.builder⟩
  have cleared : before.Notes source [] bare :=
    ⟨(List.append_nil _).symm, .of_fits (.of_nodes rfl (Nat.le_refl _) rfl rfl) rfl, rfl⟩
  exact cleared.trans (attaches before.cursor.waiting bare)

theorem State.Lists.of_builder (lists : before.Lists entries mid)
    (same : after.builder = mid.builder) : before.Lists entries after where
  inner := by rw [same, lists.inner]
  outer := by rw [same, lists.outer]

theorem State.Lists.tell (lists : before.Lists entries mid) :
    before.Lists entries (mid.tell source error) := by
  rw [State.tell]
  split
  · exact lists
  · exact ⟨lists.inner, lists.outer⟩

theorem State.Lists.depth_eq (lists : before.Lists entries after) :
    after.builder.depth = before.builder.depth := by
  have lengths := congrArg List.length lists.outer
  rw [List.length_tail, List.length_tail, Builder.length_stack, Builder.length_stack] at lengths
  exact lengths

/-- No scope is open that was not open before. -/
theorem State.Lists.unwind (lists : start.Lists entries failure) :
    start.Lists entries (failure.unwind start.builder.depth) := by
  have same : failure.unwind start.builder.depth = failure := by
    rw [State.unwind, Builder.unwindTo, lists.depth_eq, Nat.sub_self]
    rfl
  rwa [same]

/-- The members of an open scope become members of the list around it. -/
theorem State.Lists.unwind_openScope (lists : inside.openScope.Lists entries failure)
    (same : inside.builder.stack = start.builder.stack) :
    start.Lists entries (failure.unwind start.builder.depth) := by
  have depth : failure.builder.depth = start.builder.depth + 1 := by
    have lengths := congrArg List.length same
    rw [Builder.length_stack, Builder.length_stack] at lengths
    rw [lists.depth_eq, State.openScope, Builder.depth_openScope]
    omega
  have opened : failure.builder.depth ≠ 0 := by omega
  have outer : failure.builder.stack.tail = start.builder.stack :=
    lists.outer.trans same
  have inner : failure.builder.innermost = entries := lists.inner
  have unwound : (failure.unwind start.builder.depth).builder = failure.builder.dissolveScope := by
    rw [State.unwind, Builder.unwindTo, depth, Nat.add_sub_cancel_left]
    rfl
  constructor
  · rw [unwound, Builder.innermost_dissolveScope opened, outer, inner, Builder.innermost]
  · rw [unwound, Builder.tail_stack_dissolveScope opened, outer]

theorem skipRound_invalid {opened place : Nat} (current : before.cursor.kind = .invalid) :
    skipRound place opened source before =
      some (.ok (.again opened), { before with cursor := before.cursor.advance }) := by
  have peeks : Parser.kind source before = some (.ok before.cursor.kind, before) := rfl
  rw [skipRound, bind_of_ok peeks, current]
  cases opened with
  | zero => rfl
  | succ outer => rfl

structure State.Resumes (source : Source) (start : State) (error : ParseError)
    (failure resumed : State) : Prop where
  walks : failure.cursor.Walks resumed.cursor
  builder : resumed.builder = ((failure.tell source error).unwind start.builder.depth).builder
  moved : start.cursor.position < resumed.cursor.position
  swallows : failure.cursor.kind = .invalid → failure.cursor.position < resumed.cursor.position

theorem skip_swallows {opened place : Nat} (current : before.cursor.kind = .invalid)
    (ran : skip place opened source before = some (outcome, after)) :
    before.cursor.position < after.cursor.position := by
  have rounds : rounds (skipRound place) source.budget opened source before = some (outcome, after) :=
    ran
  cases budget : source.budget with
  | zero =>
    rw [budget] at rounds
    cases rounds
  | succ count =>
    rw [budget, Parser.rounds, bind_of_ok (skipRound_invalid current)] at rounds
    obtain ⟨walks, -⟩ := OnlyReads.rounds (onlyReads_skipRound place) count opened source _ _ _ rounds
    have moved := Cursor.position_advance (Cursor.isAtEnd_eq_false current (by simp))
    exact Nat.lt_of_lt_of_le (Nat.lt_of_lt_of_eq (Nat.lt_succ_self _) moved.symm) walks.position_le

theorem State.unit_tell (source : Source) (error : ParseError) (state : State) :
    (state.tell source error).builder.unit = state.builder.unit := by
  rw [State.tell]
  split <;> rfl

theorem State.nodes_tell (source : Source) (error : ParseError) (state : State) :
    (state.tell source error).builder.nodes = state.builder.nodes := by
  rw [State.tell]
  split <;> rfl

theorem State.walks_leave (state : State) (place : Nat) :
    state.cursor.Walks (state.leave place).cursor ∧ (state.leave place).builder = state.builder := by
  rw [State.leave]
  split
  · exact ⟨.advance _, rfl⟩
  · exact ⟨.refl _, rfl⟩

/-- Parsing never goes on where the failed statement began. -/
theorem State.position_leave (state : State) (inside : start.cursor.kind ≠ .endOfFile)
    (tokens : state.cursor.entries = start.cursor.entries)
    (le : start.cursor.position ≤ state.cursor.position) :
    start.cursor.position < (state.leave start.cursor.position).cursor.position := by
  rw [State.leave]
  split
  · rename_i stays
    have current : state.cursor.current = start.cursor.current := by
      rw [Cursor.current_eq, Cursor.current_eq, tokens, stays]
    have inside : state.cursor.kind ≠ .endOfFile := fun ended =>
      inside ((congrArg Token.kind current).symm.trans ended)
    change _ < state.cursor.advance.position
    rw [Cursor.position_advance (Cursor.isAtEnd_eq_false rfl inside)]
    omega
  · omega

theorem State.Resumes.nodes {resumed : State} (resumes : start.Resumes source error failure resumed) :
    resumed.builder.nodes = failure.builder.nodes := by
  rw [resumes.builder]
  exact (Builder.gathered_unwindTo _ Node.children 0 _).1.trans (failure.nodes_tell source error)

theorem State.Resumes.fits {resumed : State} (resumes : start.Resumes source error failure resumed) :
    failure.Fits source resumed := by
  refine .of_nodes resumes.walks.entries_eq resumes.walks.position_le ?_ resumes.nodes
  rw [resumes.builder]
  exact (Builder.unit_repeat_dissolveScope ..).trans (failure.unit_tell source error)

/-- A failed statement becomes a node that reaches up to where parsing goes on. -/
theorem State.Recovers.ran (recovers : start.Recovers source error failure after)
    (inside : start.cursor.kind ≠ .endOfFile) (fits : start.Fits source failure) :
    ∃ resumed, start.Resumes source error failure resumed ∧
      start.Adds source resumed .erroneous after := by
  rw [State.Recovers, recover_apply, resume_apply] at recovers
  obtain ⟨_, skips, -⟩ | ⟨_, skipped, skips, recovers⟩ := ran_of_bind recovers
  · cases (rounds_skip source.budget skips).1
  · obtain ⟨walks, same⟩ := onlyReads_skip _ _ source _ _ skipped skips
    have there : ((failure.tell source error).unwind start.builder.depth).cursor = failure.cursor :=
      failure.cursor_tell source error
    rw [there] at walks
    have leaves := skipped.walks_leave start.cursor.position
    have moved := State.position_leave skipped inside (walks.entries_eq.trans fits.tokens)
      (Nat.le_trans fits.position walks.position_le)
    have resumes : start.Resumes source error failure (skipped.leave start.cursor.position) := by
      refine ⟨walks.trans leaves.1, leaves.2.trans same, moved, fun invalid => ?_⟩
      have swallowed := skip_swallows ((congrArg Cursor.kind there).trans invalid) skips
      rw [there] at swallowed
      exact Nat.lt_of_lt_of_le swallowed leaves.1.position_le
    refine ⟨_, resumes, ?_⟩
    have childless : Node.erroneous.children = [] := rfl
    refine (add_ran (fits.trans resumes.fits) moved (fun child member => ?_) .nil recovers).2
    cases childless ▸ member

/-- A failed statement leaves an erroneous node that reaches up to where parsing goes on. -/
structure State.Recovered (source : Source) (start : State) (error : ParseError)
    (failure after : State) : Prop where
  walks : failure.cursor.Walks after.cursor
  extends_ : failure.Extends after
  moved : start.cursor.position < after.cursor.position
  swallows : failure.cursor.kind = .invalid → failure.cursor.position < after.cursor.position
  nodes : after.builder.nodes = failure.builder.nodes.push
    ⟨.erroneous, after.place source start.cursor.position (after.cursor.position - 1)⟩
  told : after.builder.diagnostics = (failure.tell source error).builder.diagnostics

section

variable (recovers : start.Recovers source error failure after)
  (further : start.cursor.kind ≠ .endOfFile) (fits : start.Fits source failure)
include recovers further fits

theorem State.Recovers.recovered : start.Recovered source error failure after := by
  obtain ⟨resumed, resumes, adds⟩ := recovers.ran further fits
  have walks : failure.cursor.Walks after.cursor := adds.cursor ▸ resumes.walks
  have nodes := adds.nodes
  rw [resumes.nodes] at nodes
  refine ⟨walks, ⟨walks.entries_eq, walks.position_le, ?_, ?_⟩, ?_, fun invalid => ?_, nodes, ?_⟩
  · exact adds.fits.unit.trans fits.unit.symm
  · rw [nodes, Array.toList_push]
    exact List.prefix_append ..
  · exact adds.cursor ▸ resumes.moved
  · exact adds.cursor ▸ resumes.swallows invalid
  · rw [adds.silent, resumes.builder]
    exact Builder.diagnostics_repeat_dissolveScope ..

/-- The entries of a failed statement stay, with the erroneous node behind them. -/
theorem State.Recovers.grows
    (lists : start.Lists entries ((failure.tell source error).unwind start.builder.depth))
    (made : ∀ id : Nat, id ∈ entries →
      start.builder.nodes.size ≤ id ∧ id < failure.builder.nodes.size)
    (ordered : entries.Pairwise (· < ·)) :
    start.Grows source (entries ++ [failure.builder.nodes.size]) after := by
  obtain ⟨resumed, resumes, adds⟩ := recovers.ran further fits
  have older := fits.size_le
  rw [← resumes.nodes] at older made ⊢
  exact .add adds (lists.of_builder resumes.builder) ordered made older

end

def forbiddenBody (message : String) (location : Location) : Diagnostic :=
  .error .invalidFunction location message

def State.complain (source : Source) (start : State) (list : BraceList) (state : State) : State :=
  match list.complaint with
  | some message => { state with builder := state.builder.report (forbiddenBody message
      (state.place source start.cursor.position (state.cursor.position - 1))) }
  | none => state

theorem BraceList.finish_eq {members : List NodeId} (extends_ : start.Extends before)
    (moved : start.cursor.position < before.cursor.position) :
    list.finish start.cursor.current.span members source before =
      add (list.node members) start.cursor.current.span source (start.complain source list before) := by
  have ends : spanFrom start.cursor.current.span source before =
      some (.ok ⟨start.cursor.current.span.start,
        max before.cursor.previousSpan.stop start.cursor.current.span.stop⟩, before) := rfl
  have told (message : String) (span : Span) : report ⟨.invalidFunction message, span, none⟩ source
      before = some (.ok (), ⟨before.cursor, before.builder.report (forbiddenBody message
        (source.lines.location before.builder.path span))⟩) := rfl
  rw [BraceList.finish, State.complain]
  cases list.complaint with
  | none => rfl
  | some message =>
    dsimp only
    rw [bind_of_ok ends, bind_of_ok (told message _), place_of_spanFrom extends_ moved]

/-- Only the diagnostics tell the state from one where nothing is complained about. -/
theorem State.complain_eq (source : Source) (start : State) (list : BraceList) (state : State) :
    ∃ diagnostics, start.complain source list state =
      ⟨state.cursor, { state.builder with diagnostics }⟩ := by
  rw [State.complain]
  split
  · exact ⟨_, rfl⟩
  · exact ⟨state.builder.diagnostics, rfl⟩

theorem State.close_eq (source : Source) (opening : Span) (state : State) : ∃ cursor diagnostics,
    state.close source opening = ⟨cursor, { state.builder.closeScope.2 with diagnostics }⟩ ∧
      state.cursor.Walks cursor := by
  rw [State.close]
  split
  · exact ⟨_, state.builder.closeScope.2.diagnostics, rfl, .advance _⟩
  · exact ⟨_, _, rfl, .refl _⟩

theorem State.fits_close (source : Source) (opening : Span) (state : State) :
    state.Fits source (state.close source opening) := by
  obtain ⟨cursor, diagnostics, same, walks⟩ := state.close_eq source opening
  rw [same]
  exact .of_nodes walks.entries_eq walks.position_le (Builder.unit_closeScope _)
    (Builder.nodes_closeScope _)

def State.complete (source : Source) (start : State) (list : BraceList) (stop : State) : State :=
  start.complain source list (stop.close source list.opening)

theorem State.complete_eq (source : Source) (start : State) (list : BraceList) (stop : State) :
    ∃ cursor diagnostics, start.complete source list stop =
      ⟨cursor, { stop.builder.closeScope.2 with diagnostics }⟩ ∧ stop.cursor.Walks cursor ∧
        cursor = (stop.close source list.opening).cursor := by
  obtain ⟨cursor, diagnostics, closed, walks⟩ := stop.close_eq source list.opening
  obtain ⟨told, same⟩ := start.complain_eq source list (stop.close source list.opening)
  refine ⟨cursor, told, ?_, walks, by rw [closed]⟩
  rw [State.complete, same, closed]

section

variable (source start list stop)

theorem State.walks_complete : stop.cursor.Walks (start.complete source list stop).cursor := by
  obtain ⟨cursor, diagnostics, same, walks, -⟩ := start.complete_eq source list stop
  rwa [same]

theorem State.nodes_complete : (start.complete source list stop).builder.nodes = stop.builder.nodes := by
  obtain ⟨cursor, diagnostics, same, -, -⟩ := start.complete_eq source list stop
  rw [same]
  exact Builder.nodes_closeScope _

/-- Between the end of the list and its owner nothing is lost. -/
theorem State.fits_complete : stop.Fits source (start.complete source list stop) := by
  obtain ⟨cursor, diagnostics, same, walks, -⟩ := start.complete_eq source list stop
  rw [same]
  exact .of_nodes walks.entries_eq walks.position_le (Builder.unit_closeScope _)
    (Builder.nodes_closeScope _)

variable {source start list stop}

theorem State.stack_complete (opened : stop.builder.depth ≠ 0) :
    (start.complete source list stop).builder.stack = stop.builder.stack.tail := by
  obtain ⟨cursor, diagnostics, same, -, -⟩ := start.complete_eq source list stop
  rw [same]
  exact Builder.stack_closeScope opened

/-- The owner is added when all is complete. -/
theorem BraceList.finish_complete (extends_ : start.Extends stop)
    (moved : start.cursor.position < stop.cursor.position) (opened : stop.builder.depth ≠ 0) :
    list.finish start.cursor.current.span stop.builder.closeScope.1 source
        (stop.close source list.opening) =
      add (list.node stop.builder.innermost) start.cursor.current.span source
        (start.complete source list stop) := by
  have closes := stop.fits_close source list.opening
  rw [Builder.closeScope_fst opened, BraceList.finish_eq (extends_.trans closes.toExtends)
    (Nat.lt_of_lt_of_le moved closes.position)]
  rfl

end

/-- When a list was read to its end, its owner is added. -/
structure State.Completes (source : Source) (start : State) (list : BraceList) (stop after : State) :
    Prop where
  adds : start.Adds source (start.complete source list stop) (list.node stop.builder.innermost) after
  walks : stop.cursor.Walks after.cursor
  extends_ : stop.Extends after
  grows : start.Grows source [stop.builder.nodes.size] after
  nodes : after.builder.nodes = stop.builder.nodes.push ⟨list.node stop.builder.innermost,
    after.place source start.cursor.position (after.cursor.position - 1)⟩

/-- The members of a list were made since the statement around it began. -/
theorem State.Grows.behind (members : inside.openScope.Grows source entries stop)
    (holds : start.Holds source 1 list.parts inside) : start.Fits source stop ∧
      start.cursor.position < stop.cursor.position ∧
      ∀ id : Nat, id ∈ entries → start.builder.nodes.size ≤ id ∧ id < stop.builder.nodes.size := by
  have opens : inside.Fits source inside.openScope := .of_nodes rfl (Nat.le_refl _) rfl rfl
  refine ⟨(holds.drafts.fits.trans opens).trans members.fits, ?_, fun id member => ?_⟩
  · exact Nat.lt_of_lt_of_le holds.moved members.fits.position
  · obtain ⟨least, most⟩ := members.made id member
    exact ⟨Nat.le_trans holds.drafts.fits.size_le least, most⟩

theorem completes (holds : start.Holds source 1 list.parts inside)
    (members : inside.openScope.Grows source entries stop)
    (finishes : list.finish start.cursor.current.span stop.builder.closeScope.1 source
      (stop.close source list.opening) = some (outcome, after)) :
    start.Completes source list stop after := by
  have inner : stop.builder.innermost = entries := members.lists.inner
  have opened : stop.builder.depth ≠ 0 := by
    rw [members.lists.depth_eq, State.openScope, Builder.depth_openScope]
    exact Nat.succ_ne_zero _
  obtain ⟨fits, further, since⟩ := members.behind holds
  have walks := start.walks_complete source stop list
  have nodes := start.nodes_complete source stop list
  have fit := fits.trans (start.fits_complete source stop list)
  have moved := Nat.lt_of_lt_of_le further walks.position_le
  have made (child : Nat) (member : child ∈ (list.node stop.builder.innermost).children) :
      start.builder.nodes.size ≤ child ∧ child < stop.builder.nodes.size := by
    rw [Node.children, list.parts_node, list.members_node, inner] at member
    rcases List.mem_append.mp member with part | entry
    · obtain ⟨least, most⟩ := holds.made child part
      exact ⟨least, Nat.lt_of_lt_of_le most members.fits.size_le⟩
    · exact since child entry
  have ordered : (list.node stop.builder.innermost).members.Pairwise (· < ·) := by
    rw [list.members_node, inner]
    exact members.ordered
  have stack : (start.complete source list stop).builder.stack = start.builder.stack :=
    (State.stack_complete opened).trans (members.lists.outer.trans holds.drafts.keeps.stack_eq)
  rw [BraceList.finish_complete fits.toExtends further opened] at finishes
  have adds := (add_ran fit moved (by rwa [nodes]) ordered finishes).2
  have added := adds.nodes
  have grows := State.Grows.add adds (.of_stack stack) .nil (List.forall_mem_nil _) fit.size_le
  rw [nodes] at added grows
  have walked : stop.cursor.Walks after.cursor := adds.cursor ▸ walks
  refine ⟨adds, walked, ⟨walked.entries_eq, walked.position_le, ?_, ?_⟩, grows, added⟩
  · exact adds.fits.unit.trans fits.unit.symm
  · rw [added, Array.toList_push]
    exact List.prefix_append ..

theorem enters_of_bare (bare : before.IsBare source)
    (ran : ∀ statement, construct statement source before = some (outcome, after)) :
    (before.past (before.header? source)).Walks after.cursor ∧ before.Enters source after :=
  ((splits_construct before).plain bare exhausted outcome after (ran _)).2

theorem State.ComesTo.opened (comes : before.ComesTo source list inside) :
    before.Opens source (before.past (before.header? source)) list inside :=
  ((splits_construct before).opened list inside comes.opens).1

theorem State.Grows.flush (grows : before.Grows source entries mid)
    (ended : after = mid ∨ after = mid.flush source) :
    ∃ entries, before.Grows source entries after := by
  rcases ended with rfl | rfl
  · exact ⟨entries, grows⟩
  · exact ⟨_, grows.trans (notes_flush source mid).grows⟩

theorem Runs.grows (runs : Runs source part before log outcome after) :
    ∃ entries, before.Grows source entries after := by
  induction runs with
  | plain fresh bare ran =>
    obtain ⟨entries, -, grows⟩ := State.Grows.of_enters (enters_of_bare bare ran).2
    exact ⟨entries, grows⟩
  | @failed before failure after error fresh bare ran recovers =>
    obtain ⟨entries, -, grows⟩ := State.Grows.of_enters (enters_of_bare bare ran).2
    have lists : before.Lists entries (failure.tell source error) := grows.lists.tell
    exact ⟨_, recovers.grows fresh.inside grows.fits lists.unwind grows.made grows.ordered⟩
  | enclosed fresh comes members finishes ih =>
    obtain ⟨entries, grows⟩ := ih
    exact ⟨_, (completes comes.opened.holds grows finishes).grows⟩
  | @broken before inside failure after list error log fresh comes members recovers ih =>
    -- the scope of the list is dissolved, so its members are entries around it
    obtain ⟨entries, grows⟩ := ih
    obtain ⟨fits, -, since⟩ := grows.behind comes.opened.holds
    have lists : inside.openScope.Lists entries (failure.tell source error) := grows.lists.tell
    have same : inside.builder.stack = before.builder.stack :=
      comes.opened.holds.drafts.keeps.stack_eq
    exact ⟨_, recovers.grows fresh.inside fits (lists.unwind_openScope same) since grows.ordered⟩
  | element fresh ran =>
    obtain ⟨last, -, enters, ended⟩ := enumElement_ran ran
    obtain ⟨entries, -, grows⟩ := State.Grows.of_enters enters
    exact grows.flush ended
  | @done before scope ends => exact ⟨_, (notes_flush source before).grows⟩
  | @more before mid after scope log rest outcome further first others ih ih' =>
    obtain ⟨entries, grows⟩ := ih
    obtain ⟨more, grows'⟩ := ih'
    exact ⟨_, ((notes_flush source before).grows.trans grows).trans grows'⟩
  | @stop before after scope log error further first ih =>
    obtain ⟨entries, grows⟩ := ih
    exact ⟨_, (notes_flush source before).grows.trans grows⟩

/-- A list that began without entries holds those that were made since then. -/
theorem Runs.grows_innermost {scope : Scope} (runs : Runs source (.all scope) before log outcome after)
    (empty : before.builder.innermost = []) : before.Grows source after.builder.innermost after := by
  obtain ⟨entries, grows⟩ := runs.grows
  have inner : after.builder.innermost = entries := by rw [grows.lists.inner, empty, List.nil_append]
  rwa [inner]

section

variable (comes : before.ComesTo source list inside)
include comes

/-- A list was read to its end, and the statement is complete. -/
theorem Runs.completes
    (members : Runs source (.all (.braces list.member)) inside.openScope log (.ok ()) stop)
    (finishes : list.finish before.cursor.current.span stop.builder.closeScope.1 source
      (stop.close source list.opening) = some (.ok (), after)) :
    before.Completes source list stop after := by
  obtain ⟨entries, grows⟩ := members.grows
  exact Parser.completes comes.opened.holds grows finishes

/-- A member failed, and the statement with it. -/
theorem Runs.recovered (fresh : before.IsFresh)
    (members : Runs source (.all (.braces list.member)) inside.openScope log (.error error) failure)
    (recovers : before.Recovers source error failure after) :
    before.Recovered source error failure after := by
  obtain ⟨entries, grows⟩ := members.grows
  exact recovers.recovered fresh.inside (grows.behind comes.opened.holds).1

end

/-- A statement without a list failed. -/
theorem recovered_of_bare (fresh : before.IsFresh) (bare : before.IsBare source)
    (ran : ∀ statement, construct statement source before = some (.error error, failure))
    (recovers : before.Recovers source error failure after) :
    before.Recovered source error failure after :=
  recovers.recovered fresh.inside (enters_of_bare bare ran).2.fits

def Event.IsBetween (before after : State) : Event → Prop
  | .began start => before.Extends start ∧ start.Extends after
  | .failed start _ failure last =>
    before.Extends start ∧ start.Extends failure ∧ failure.Extends last ∧ last.Extends after
  | .enclosed start _ stop last =>
    before.Extends start ∧ start.Extends stop ∧ stop.Extends last ∧ last.Extends after

theorem Event.IsBetween.widen {event : Event} (between : event.IsBetween mid stop)
    (early : before.Extends mid) (late : stop.Extends after) : event.IsBetween before after := by
  cases event with
  | began start => exact ⟨early.trans between.1, between.2.trans late⟩
  | failed start error failure last =>
    obtain ⟨first, second, third, fourth⟩ := between
    exact ⟨early.trans first, second, third, fourth.trans late⟩
  | enclosed start list stop last =>
    obtain ⟨first, second, third, fourth⟩ := between
    exact ⟨early.trans first, second, third, fourth.trans late⟩

theorem State.Extends.refl (state : State) : state.Extends state :=
  ⟨rfl, Nat.le_refl _, rfl, List.prefix_refl _⟩

theorem State.Extends.openScope (extends_ : before.Extends mid) : before.Extends mid.openScope :=
  ⟨extends_.tokens, extends_.position, extends_.unit, extends_.nodes⟩

theorem Runs.extends_ (runs : Runs source part before log outcome after) : before.Extends after := by
  obtain ⟨entries, grows⟩ := runs.grows
  exact grows.fits.toExtends

theorem Runs.isBetween (runs : Runs source part before log outcome after) :
    ∀ event ∈ log, event.IsBetween before after := by
  have whole := runs.extends_
  induction runs with
  | plain fresh bare ran => exact List.forall_mem_singleton.mpr ⟨.refl _, whole⟩
  | @failed before failure after error fresh bare ran recovers =>
    have recovered := recovered_of_bare fresh bare ran recovers
    have fits := (enters_of_bare bare ran).2.fits
    exact List.forall_mem_cons.mpr ⟨⟨.refl _, whole⟩, List.forall_mem_singleton.mpr
      ⟨.refl _, fits.toExtends, recovered.extends_, .refl _⟩⟩
  | @enclosed before inside stop after list log fresh comes members finishes ih =>
    have complete := members.completes comes finishes
    obtain ⟨entries, grows⟩ := members.grows
    have opens := comes.opened.holds.drafts.fits.toExtends.openScope
    have fits := (grows.behind comes.opened.holds).1
    refine List.forall_mem_cons.mpr ⟨⟨.refl _, whole⟩, List.forall_mem_append.mpr
      ⟨fun event member => ?_, List.forall_mem_singleton.mpr
        ⟨.refl _, fits.toExtends, complete.extends_, .refl _⟩⟩⟩
    exact (ih members.extends_ event member).widen opens complete.extends_
  | @broken before inside failure after list error log fresh comes members recovers ih =>
    have recovered := members.recovered comes fresh recovers
    obtain ⟨entries, grows⟩ := members.grows
    have opens := comes.opened.holds.drafts.fits.toExtends.openScope
    have fits := (grows.behind comes.opened.holds).1
    refine List.forall_mem_cons.mpr ⟨⟨.refl _, whole⟩, List.forall_mem_append.mpr
      ⟨fun event member => ?_, List.forall_mem_singleton.mpr
        ⟨.refl _, fits.toExtends, recovered.extends_, .refl _⟩⟩⟩
    exact (ih members.extends_ event member).widen opens recovered.extends_
  | element fresh ran => exact List.forall_mem_nil _
  | done ends => exact List.forall_mem_nil _
  | @more before mid after scope log rest outcome further first others ih ih' =>
    have flushed := (notes_flush source before).grows.fits.toExtends
    refine List.forall_mem_append.mpr ⟨fun event member => ?_, fun event member => ?_⟩
    · exact (ih first.extends_ event member).widen flushed others.extends_
    · exact (ih' others.extends_ event member).widen (flushed.trans first.extends_) (.refl _)
  | @stop before after scope log error further first ih =>
    have flushed := (notes_flush source before).grows.fits.toExtends
    exact fun event member => (ih first.extends_ event member).widen flushed (.refl _)

/-- The list of an event was read to its end, and what happened in it is part of the log. -/
theorem Runs.exists_members (runs : Runs source part before log outcome after) {last : State}
    (member : .enclosed start list stop last ∈ log) :
    ∃ inside inner, start.IsFresh ∧ start.ComesTo source list inside ∧ inner ⊆ log ∧
      Runs source (.all (.braces list.member)) inside.openScope inner (.ok ()) stop ∧
      start.Completes source list stop last := by
  induction runs with
  | plain | failed | element | done => simp at member
  | enclosed fresh comes members finishes ih =>
    rcases List.mem_append.mp member with front | own
    · obtain ⟨inside, inner, fresh, comes, part, rest⟩ := ih (by simpa using front)
      exact ⟨inside, inner, fresh, comes, fun event here => by simp [part here], rest⟩
    · cases List.mem_singleton.mp own
      exact ⟨_, _, fresh, comes, fun event here => by simp [here], members,
        members.completes comes finishes⟩
  | broken fresh comes members recovers ih =>
    obtain ⟨inside, inner, fresh, comes, part, rest⟩ := ih (by simpa using member)
    exact ⟨inside, inner, fresh, comes, fun event here => by simp [part here], rest⟩
  | more further first others ih ih' =>
    rcases List.mem_append.mp member with here | here
    · obtain ⟨inside, log, fresh, comes, part, rest⟩ := ih here
      exact ⟨inside, log, fresh, comes, List.subset_append_of_subset_left _ part, rest⟩
    · obtain ⟨inside, log, fresh, comes, part, rest⟩ := ih' here
      exact ⟨inside, log, fresh, comes, List.subset_append_of_subset_right _ part, rest⟩
  | stop further first ih => exact ih member

def placedWhere (p : Node → Bool) (nodes : Array PlacedNode) : List (PlacedNode × NodeId) :=
  nodes.toList.zipIdx.filter (p ·.1.node)

variable {p : Node → Bool}

theorem placedWhere_push {nodes nodes' : Array PlacedNode} {placed : PlacedNode}
    (pushed : nodes' = nodes.push placed) : placedWhere p nodes' =
      placedWhere p nodes ++ if p placed.node then [(placed, nodes.size)] else [] := by
  rw [pushed, placedWhere, Array.toList_push, List.zipIdx_append, List.filter_append, Nat.zero_add]
  cases same : p placed.node <;> simp [placedWhere, same]

theorem State.Extends.placedWhere (extends_ : before.Extends after)
    (others : ∀ (id : Nat) placed, before.builder.nodes.size ≤ id →
      after.builder.nodes[id]? = some placed → p placed.node = false) :
    placedWhere p after.builder.nodes = placedWhere p before.builder.nodes := by
  obtain ⟨new, same⟩ := extends_.nodes
  rw [Parser.placedWhere, ← same, List.zipIdx_append, List.filter_append, Parser.placedWhere]
  refine (congrArg _ (List.filter_eq_nil_iff.mpr ?_)).trans (List.append_nil _)
  rintro ⟨placed, id⟩ member
  obtain ⟨least, here⟩ := List.mk_mem_zipIdx_iff_le_and_getElem?_sub.mp member
  rw [Nat.zero_add, Array.length_toList] at least here
  have found : after.builder.nodes[id]? = some placed := by
    rw [← Array.getElem?_toList, ← same, List.getElem?_append_right (by simpa using least)]
    simpa using here
  simp [others id placed least found]

end Parser

end IncrementalFrontend
