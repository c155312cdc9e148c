import IncrementalFrontend.Proofs.Parser.Braces

/-!
Recovery. Whatever a failed statement has left open is closed, and tokens are skipped up to where
its braces are closed, too. So an erroneous statement nests like any other.
-/
namespace IncrementalFrontend

namespace Builder

theorem diagnostics_dissolveScope (builder : Builder) :
    builder.dissolveScope.diagnostics = builder.diagnostics := by
  have keeps (members : List NodeId) (builder : Builder) :
      (members.foldl attach builder).diagnostics = builder.diagnostics := by
    induction members generalizing builder with
    | nil => rfl
    | cons id rest ih => rw [List.foldl_cons, ih, diagnostics_attach]
  rw [dissolveScope, keeps, diagnostics_closeScope]

theorem unit_dissolveScope (builder : Builder) : builder.dissolveScope.unit = builder.unit := by
  have keeps (members : List NodeId) (builder : Builder) :
      (members.foldl attach builder).unit = builder.unit := by
    induction members generalizing builder with
    | nil => rfl
    | cons id rest ih => rw [List.foldl_cons, ih, unit_attach]
  rw [dissolveScope, keeps, unit_closeScope]

theorem tail_stack_dissolveScope {builder : Builder} (opened : builder.depth ≠ 0) :
    builder.dissolveScope.stack.tail = builder.stack.tail.tail := by
  have keeps (members : List NodeId) (builder : Builder) :
      (members.foldl attach builder).stack.tail = builder.stack.tail := by
    induction members generalizing builder with
    | nil => rfl
    | cons id rest ih => rw [List.foldl_cons, ih, tail_stack_attach]
  rw [dissolveScope, keeps, stack_closeScope opened]

theorem depth_repeat_dissolveScope (builder : Builder) (count : Nat) :
    (Nat.repeat dissolveScope count builder).depth = builder.depth - count := by
  induction count with
  | zero => rfl
  | succ count ih => rw [Nat.repeat, depth_dissolveScope, ih, Nat.sub_sub]

theorem tail_stack_repeat_dissolveScope {builder : Builder} {count : Nat}
    (opened : count ≤ builder.depth) :
    (Nat.repeat dissolveScope count builder).stack.tail = builder.stack.drop (count + 1) := by
  induction count with
  | zero => exact List.drop_one.symm
  | succ count ih =>
    have depth := builder.depth_repeat_dissolveScope count
    rw [Nat.repeat, tail_stack_dissolveScope (by omega), ih (by omega), List.tail_drop]

theorem diagnostics_repeat_dissolveScope (builder : Builder) (count : Nat) :
    (Nat.repeat dissolveScope count builder).diagnostics = builder.diagnostics := by
  induction count with
  | zero => rfl
  | succ count ih => rw [Nat.repeat, diagnostics_dissolveScope, ih]

theorem unit_repeat_dissolveScope (builder : Builder) (count : Nat) :
    (Nat.repeat dissolveScope count builder).unit = builder.unit := by
  induction count with
  | zero => rfl
  | succ count ih => rw [Nat.repeat, unit_dissolveScope, ih]

end Builder

namespace Parser

variable {source : Source} {before mid after : State} {word : List TokenKind}
  {start opened : Nat} {outcome : Except ParseError Unit}

def State.IsStop (start opened : Nat) (state : State) : Prop :=
  state.cursor.kind = .endOfFile ∨ (state.cursor.kind = .symbol .braceClose ∧ opened = 0) ∨
    start < state.cursor.position

def skipRound (start openBraces : Nat) : Parser (Round Nat Unit) := do
  match ← kind, openBraces with
  | .endOfFile, _ => return .done ()
  | .symbol .semicolon, 0 => let _ ← advance; return .done ()
  | .symbol .braceClose, 0 => return .done ()
  | .symbol .braceClose, 1 => let _ ← advance; return .done ()
  | .symbol .braceClose, outer + 2 => let _ ← advance; return .again (outer + 1)
  | .symbol .braceOpen, _ => let _ ← advance; return .again (openBraces + 1)
  | kind, 0 =>
    if kind.startsDeclaration && start < (← position) then
      return .done ()
    let _ ← advance
    return .again 0
  | _, _ => let _ ← advance; return .again openBraces

structure State.Skips (start opened : Nat) (before : State) (word : List TokenKind) (after : State) :
    Prop where
  reads : before.Reads word after
  builder : after.builder = before.builder
  braces : ∃ depth, openBraces opened word = some depth ∧ (depth = 0 ∨ after.cursor.kind = .endOfFile)
  stop : word = [] → before.IsStop start opened

theorem State.Skips.nothing (braces : opened = 0 ∨ before.cursor.kind = .endOfFile)
    (stop : before.IsStop start opened) : before.Skips start opened [] before :=
  ⟨.nil rfl rfl, rfl, ⟨opened, rfl, braces⟩, fun _ => stop⟩

theorem State.Skips.last {kind : TokenKind} (current : before.cursor.kind = kind)
    (inside : kind ≠ .endOfFile) (walk : openBraces opened [kind] = some 0) :
    before.Skips start opened [kind] { before with cursor := before.cursor.advance } :=
  ⟨State.reads_advance current inside, rfl, ⟨0, walk, .inl rfl⟩, nofun⟩

theorem skipRound_apply (start opened : Nat) (source : Source) (before : State) :
    (∃ word after, skipRound start opened source before = some (.ok (.done ()), after) ∧
      before.Skips start opened word after) ∨
    ∃ further, before.cursor.kind ≠ .endOfFile ∧
      openBraces opened [before.cursor.kind] = some further ∧
      skipRound start opened source before =
        some (.ok (.again further), { before with cursor := before.cursor.advance }) := by
  have peeks : Parser.kind source before = some (.ok before.cursor.kind, before) := rfl
  generalize ran : skipRound start opened source before = outcome
  rw [skipRound, bind_of_ok peeks] at ran
  generalize current : before.cursor.kind = kind at ran
  split at ran
  · exact .inl ⟨[], before, ran.symm, .nothing (.inr current) (.inl current)⟩
  · exact .inl ⟨_, _, ran.symm, .last current TokenKind.noConfusion rfl⟩
  · exact .inl ⟨[], before, ran.symm, .nothing (.inl rfl) (.inr (.inl ⟨current, rfl⟩))⟩
  · exact .inl ⟨_, _, ran.symm, .last current TokenKind.noConfusion rfl⟩
  · exact .inr ⟨_, TokenKind.noConfusion, openBraces_close .., ran.symm⟩
  · exact .inr ⟨_, TokenKind.noConfusion, openBraces_open .., ran.symm⟩
  · rename_i notEnd _ notClose notOpen
    have looks : position source before = some (.ok before.cursor.position, before) := rfl
    rw [bind_of_ok looks] at ran
    split at ran
    · rename_i stops
      rw [Bool.and_eq_true, decide_eq_true_iff] at stops
      exact .inl ⟨[], before, ran.symm, .nothing (.inl rfl) (.inr (.inr stops.2))⟩
    · exact .inr ⟨0, notEnd, openBraces_other notOpen notClose .., ran.symm⟩
  · rename_i notEnd notOpen _ _ closeNone closeLast closeInner
    have notClose : kind ≠ .symbol .braceClose := fun close =>
      match opened with
      | 0 => closeNone close rfl
      | 1 => closeLast close rfl
      | outer + 2 => closeInner outer close rfl
    exact .inr ⟨opened, notEnd, openBraces_other notOpen notClose .., ran.symm⟩

/-- Skipping never fails. -/
theorem rounds_skip (count : Nat) (ran : rounds (skipRound start) count opened source before =
    some (outcome, after)) : outcome = .ok () ∧ ∃ word, before.Skips start opened word after := by
  induction count generalizing opened before with
  | zero => cases ran
  | succ count ih =>
    rw [rounds] at ran
    rcases skipRound_apply start opened source before with
      ⟨word, last, first, skips⟩ | ⟨further, notEnd, walk, first⟩
    · rw [bind_of_ok first] at ran
      cases ran
      exact ⟨rfl, word, skips⟩
    · rw [bind_of_ok first] at ran
      obtain ⟨rfl, word, skips⟩ := ih ran
      have reads := (State.reads_advance rfl notEnd).trans skips.reads
      refine ⟨rfl, _, reads, skips.builder, ?_, fun empty => absurd empty (List.cons_ne_nil _ _)⟩
      rw [openBraces_append, walk]
      exact skips.braces

theorem isSome_rounds_skip (count : Nat) (fits : before.cursor.kinds.length < count) :
    (rounds (skipRound start) count opened source before).isSome := by
  induction count generalizing opened before with
  | zero => omega
  | succ count ih =>
    rw [rounds]
    rcases skipRound_apply start opened source before with
      ⟨word, last, first, -⟩ | ⟨further, notEnd, -, first⟩
    · rw [bind_of_ok first]
      rfl
    · rw [bind_of_ok first]
      have length := (State.reads_advance rfl notEnd).length
      exact ih (by simp at length ⊢; omega)

def State.tell (source : Source) (error : ParseError) (state : State) : State :=
  if error.found? = some .invalid then state
  else
    let location := source.lines.location state.builder.path error.span
    { state with builder := state.builder.report (error.diagnostic location) }

def State.unwind (depth : Nat) (state : State) : State :=
  { state with builder := (state.builder.unwindTo depth).2 }

def State.leave (start : Nat) (state : State) : State :=
  if state.cursor.position = start then { state with cursor := state.cursor.advance } else state

def resume (start : Nat) (startSpan : Span) (depth : Nat) : Parser Unit := do
  let openBraces ← build (·.unwindTo depth)
  skip start openBraces
  if (← position) = start then
    let _ ← advance
  add .erroneous startSpan

theorem recover_apply (start depth : Nat) (span : Span) (error : ParseError) (source : Source)
    (mid : State) : recover start span depth error source mid =
      resume start span depth source (mid.tell source error) := by
  rw [recover, State.tell]
  split <;> rfl

theorem resume_apply (start depth : Nat) (span : Span) (source : Source) (mid : State) :
    resume start span depth source mid =
      (do skip start (mid.builder.depth - depth)
          fun source skipped => add .erroneous span source (skipped.leave start))
        source (mid.unwind depth) := by
  have unwinds : build (·.unwindTo depth) source mid =
      some (.ok (mid.builder.depth - depth), mid.unwind depth) := build_apply _
  have leaves : (do
      if (← position) = start then
        let _ ← advance
      add .erroneous span : Parser Unit) =
        fun source skipped => add .erroneous span source (skipped.leave start) := by
    funext source skipped
    have looks : position source skipped = some (.ok skipped.cursor.position, skipped) := rfl
    have advances : advance source skipped = some
        (.ok skipped.cursor.current, { skipped with cursor := skipped.cursor.advance }) := rfl
    rw [bind_of_ok looks, State.leave]
    split
    · exact bind_of_ok advances
    · rfl
  rw [resume, bind_of_ok unwinds, leaves]

theorem recover_ran {error : ParseError} {depth : Nat} {span : Span}
    (ran : recover start span depth error source mid = some (outcome, after)) :
    outcome = .ok () ∧ ∃ word skipped, ((mid.tell source error).unwind depth).Skips start
        ((mid.tell source error).builder.depth - depth) word skipped ∧
      (skipped.leave start).Reads [] after ∧ (skipped.leave start).Nests [] 0 after ∧
      (skipped.leave start).IsSilent after := by
  rw [recover_apply, resume_apply] at ran
  obtain ⟨_, failed, -⟩ | ⟨_, skipped, skip_ran, rest⟩ := ran_of_bind ran
  · cases (rounds_skip source.budget failed).1
  · obtain ⟨-, word, skips⟩ := rounds_skip source.budget skip_ran
    obtain ⟨_, after, added, reads, nests, silent⟩ :=
      idle_add .erroneous span source (skipped.leave start)
    cases added.symm.trans rest
    exact ⟨rfl, word, skipped, skips, reads, nests, silent⟩

theorem isSome_recover {error : ParseError} {depth : Nat} {span : Span}
    (fits : mid.cursor.kinds.length < source.budget) :
    (recover start span depth error source mid).isSome := by
  have tells : (mid.tell source error).cursor = mid.cursor := by
    rw [State.tell]
    split <;> rfl
  rw [recover_apply, resume_apply]
  have ends : (skip start ((mid.tell source error).builder.depth - depth) source
      ((mid.tell source error).unwind depth)).isSome := by
    refine isSome_rounds_skip source.budget ?_
    rwa [State.unwind, tells]
  obtain ⟨⟨ended, skipped⟩, ran⟩ := Option.isSome_iff_exists.mp ends
  obtain ⟨rfl, -⟩ := rounds_skip source.budget ran
  rw [bind_of_ok ran]
  obtain ⟨_, after, added, -⟩ := idle_add .erroneous span source (skipped.leave start)
  rw [added]
  rfl

theorem code_ne_unclosedDelimiter (error : ParseError) (location : Location) :
    (error.diagnostic location).code ≠ .unclosedDelimiter := by
  obtain ⟨kind, span, note⟩ := error
  cases kind <;> exact DiagnosticCode.noConfusion

theorem State.cursor_tell (source : Source) (error : ParseError) (state : State) :
    (state.tell source error).cursor = state.cursor := by
  rw [State.tell]
  split <;> rfl

theorem State.Nests.tell (nests : before.Nests word opened mid) (error : ParseError) :
    before.Nests word opened (mid.tell source error) := by
  rw [State.tell]
  split
  · exact nests
  · obtain ⟨new, same, fine⟩ := nests.reports
    let told := error.diagnostic (source.lines.location mid.builder.path error.span)
    refine ⟨nests.braces, nests.depth, nests.outer, nests.unit, new ++ [told], ?_, fun complete =>
      List.forall_mem_append.mpr ⟨fine complete, List.forall_mem_singleton.mpr ?_⟩⟩
    · change (mid.builder.diagnostics.push told).toList = _
      rw [Array.toList_push, same, List.append_assoc]
    · exact code_ne_unclosedDelimiter error _

/-- When the scopes of a failed statement have ended and its braces are closed, the statement has
left nothing open. -/
theorem State.Nests.recovered (nests : before.Nests word opened mid)
    {more : List TokenKind} {skipped : State}
    (skips : (mid.unwind before.builder.depth).Skips start
      (mid.builder.depth - before.builder.depth) more skipped) :
    before.Nests (word ++ more) 0 skipped := by
  have surplus : mid.builder.depth - before.builder.depth = opened := by
    rw [nests.depth, Nat.add_sub_cancel_left]
  have builder : skipped.builder = Nat.repeat Builder.dissolveScope opened mid.builder := by
    rw [skips.builder, ← surplus]
    rfl
  rw [surplus] at skips
  have further : mid.Reads more skipped :=
    ⟨skips.reads.kinds, skips.reads.inside, skips.reads.position⟩
  have ended (here : mid.cursor.kind = .endOfFile) : more = [] ∧ skipped.cursor.kind = .endOfFile := by
    obtain rfl := further.nil_of_isAtEnd (Cursor.isAtEnd_iff.mpr here)
    have kinds : mid.cursor.kinds = skipped.cursor.kinds := further.kinds
    rw [Cursor.kind_eq_first, kinds, ← Cursor.kind_eq_first] at here
    exact ⟨rfl, here⟩
  refine ⟨?_, ?_, ?_, ?_, ?_⟩
  · obtain ⟨depth, walk, closed⟩ := nests.braces
    by_cases here : mid.cursor.kind = .endOfFile
    · obtain ⟨rfl, here⟩ := ended here
      exact ⟨depth, by rwa [List.append_nil], .inr here⟩
    · obtain rfl := closed.resolve_right here
      rw [openBraces_append, walk]
      exact skips.braces
  · rw [builder, Builder.depth_repeat_dissolveScope, nests.depth, Nat.add_sub_cancel, Nat.add_zero]
  · rw [builder, List.drop_one, Builder.tail_stack_repeat_dissolveScope (by rw [nests.depth]; omega)]
    exact nests.outer
  · rw [builder, Builder.unit_repeat_dissolveScope, nests.unit]
  · obtain ⟨new, same, fine⟩ := nests.reports
    refine ⟨new, ?_, fun complete => fine ?_⟩
    · rw [builder, Builder.diagnostics_repeat_dissolveScope, same]
    · by_cases here : mid.cursor.kind = .endOfFile
      · obtain ⟨rfl, here⟩ := ended here
        rw [List.append_nil] at complete
        exact complete.imp_right fun inside => absurd here inside
      · exact .inr here

theorem State.reads_leave (start : Nat) (state : State) : ∃ word, state.Reads word (state.leave start) ∧
    (state.leave start).builder = state.builder ∧
    (word = [] → state.cursor.kind = .endOfFile ∨ state.cursor.position ≠ start) := by
  rw [State.leave]
  split
  · by_cases ended : state.cursor.kind = .endOfFile
    · rw [Cursor.advance_of_isAtEnd (Cursor.isAtEnd_iff.mpr ended)]
      exact ⟨[], .nil rfl rfl, rfl, fun _ => .inl ended⟩
    · exact ⟨_, State.reads_advance rfl ended, rfl, nofun⟩
  · rename_i further
    exact ⟨[], .nil rfl rfl, rfl, fun _ => .inr further⟩

theorem State.silent_of_tell {error : ParseError} (reports : before.Reports mid)
    (silent : (mid.tell source error).builder.diagnostics = before.builder.diagnostics) :
    error.found? = some .invalid := by
  by_contra told
  rw [State.tell, if_neg told] at silent
  have size := congrArg Array.size silent
  have fewer := reports.length_le
  simp only [Builder.report, Array.size_push, Array.length_toList] at size fewer
  omega

/-- A failed statement goes on behind its error, and has read something. Unless it began at a brace
that closes none, it has left nothing open. -/
theorem recovers {error : ParseError} {span : Span}
    (ran : recover before.cursor.position span before.builder.depth error source mid =
      some (outcome, after))
    (reads : before.Reads word mid) (inside : before.cursor.kind ≠ .endOfFile) :
    outcome = .ok () ∧ ∃ more, before.Reads more after ∧ more ≠ [] ∧
      after.builder.diagnostics = (mid.tell source error).builder.diagnostics ∧
      ∀ opened, before.Nests word opened mid → ¬ before.IsAtListEnd → before.Nests more 0 after := by
  obtain ⟨rfl, more, skipped, skips, last, attached, silent⟩ := recover_ran ran
  obtain ⟨rest, leaves, same, moved⟩ := skipped.reads_leave before.cursor.position
  have further : before.Reads (word ++ more) skipped :=
    reads.trans (skips.reads.of_cursor (mid.cursor_tell source error))
  refine ⟨rfl, word ++ more ++ rest ++ [], (further.trans leaves).trans last, fun empty => ?_, ?_,
    fun opened nests list => ?_⟩
  · simp only [List.append_nil, List.append_eq_nil_iff] at empty
    obtain ⟨⟨rfl, rfl⟩, rfl⟩ := empty
    exact (moved rfl).elim (fun ended => inside (further.kind_eq ▸ ended)) (· further.position)
  · rw [silent, same, skips.builder]
    exact Builder.diagnostics_repeat_dissolveScope ..
  · have nests := (nests.tell error).recovered skips
    have stays : skipped.leave before.cursor.position = skipped := by
      refine if_neg fun here => ?_
      have length := further.position
      have empty : word ++ more = [] := List.eq_nil_of_length_eq_zero (by omega)
      obtain ⟨rfl, rfl⟩ := List.append_eq_nil_iff.mp empty
      have kind : ((mid.tell source error).unwind before.builder.depth).cursor.kind =
        before.cursor.kind := skips.reads.kind_eq.symm.trans further.kind_eq
      rcases skips.stop rfl with ended | ⟨closes, -⟩ | passed
      · exact inside (kind ▸ ended)
      · exact list (.inl (kind ▸ closes))
      · have position := skips.reads.position
        omega
    rw [stays] at leaves last attached
    have position := leaves.position
    obtain rfl : rest = [] := List.eq_nil_of_length_eq_zero (by omega)
    rw [List.append_nil]
    exact nests.trans last attached

section

variable {effect : Effect} {room : Nat} {statement : Parser Unit} {language : Language TokenKind}

theorem recoveringStatement_eq : recoveringStatement statement source before =
    tryCatch (construct statement) (recover before.cursor.position before.cursor.current.span
      before.builder.depth) source before := by
  have looks : position source before = some (.ok before.cursor.position, before) := rfl
  have spans : currentSpan source before = some (.ok before.cursor.current.span, before) := rfl
  have gets : (get : Parser State) source before = some (.ok before, before) := rfl
  rw [recoveringStatement, bind_of_ok looks, bind_of_ok spans, bind_of_ok gets]

theorem recoveringStatement_ok (ran : construct statement source before = some (.ok (), after)) :
    recoveringStatement statement source before = some (.ok (), after) := by
  rw [recoveringStatement_eq, tryCatch_apply, ran]

theorem recoveringStatement_error {error : ParseError}
    (ran : construct statement source before = some (.error error, mid)) :
    recoveringStatement statement source before = recover before.cursor.position
      before.cursor.current.span before.builder.depth error source mid := by
  rw [recoveringStatement_eq, tryCatch_apply, ran]

theorem recoveringStatement_none (ran : construct statement source before = none) :
    recoveringStatement statement source before = none := by
  rw [recoveringStatement_eq, tryCatch_apply, ran]

/-- A run of recovery as a run of a parser of the language that the failed parser was for. -/
theorem ran_recovered {error : ParseError} {span : Span}
    (failed : Ran nesting before language ∅ (.error error : Except ParseError Unit) mid word)
    (keeps : ∀ word after, (¬ before.IsAtListEnd → before.Nests word 0 after) →
      before.Reports after → effect.done before word after)
    (inside : before.cursor.kind ≠ .endOfFile)
    (ran : recover before.cursor.position span before.builder.depth error source mid =
      some (outcome, after)) :
    ∃ word, Ran effect before language ∅ outcome after word := by
  obtain ⟨⟨opened, nests⟩, found⟩ := failed.ends
  obtain ⟨rfl, more, reads, consumed, told, nested⟩ := recovers ran failed.reads inside
  have reports : before.Reports mid := by
    obtain ⟨new, same, -⟩ := nests.reports
    exact ⟨new, same.symm⟩
  refine ⟨more, reads, ⟨keeps more after (nested opened nests) ?_, fun empty => absurd empty consumed,
    fun silent valid => ?_⟩, fun sentence rest member same follows => ?_⟩
  · refine List.IsPrefix.trans reports ?_
    rw [told, State.tell]
    split
    · exact List.prefix_refl _
    · change _ <+: (mid.builder.diagnostics.push _).toList
      rw [Array.toList_push]
      exact List.prefix_append ..
  · have invalid := found.symm.trans (State.silent_of_tell reports (told.symm.trans silent))
    refine absurd ?_ valid
    rw [failed.reads.kinds, Cursor.kinds_eq_cons (by simp_all), Option.some.inj invalid]
    exact List.mem_append_right _ List.mem_cons_self
  · obtain ⟨⟨_, absurd⟩, -⟩ := failed.complete sentence rest member same follows
    cases absurd

/-- A statement with recovery ends if the statement does. -/
theorem isSome_recovering (fits : room ≤ source.budget)
    (parses : Parses nesting room (construct statement) source before language ∅)
    (few : before.cursor.kinds.length < room) :
    (recoveringStatement statement source before).isSome := by
  obtain ⟨⟨outcome, mid⟩, ran⟩ := Option.isSome_iff_exists.mp (parses.ends few)
  cases outcome with
  | ok _ =>
    rw [recoveringStatement_ok ran]
    rfl
  | error error =>
    obtain ⟨word, failed⟩ := parses.ran _ mid ran
    have length := failed.reads.length
    rw [recoveringStatement_error ran]
    exact isSome_recover (by omega)

theorem parses_recovering
    (keeps : ∀ word after, (¬ before.IsAtListEnd → before.Nests word 0 after) →
      before.Reports after → effect.done before word after)
    (inside : before.cursor.kind ≠ .endOfFile) (fits : room ≤ source.budget)
    (parses : Parses nesting room (construct statement) source before language ∅) :
    Parses effect room (recoveringStatement statement) source before language ∅ where
  ends := isSome_recovering fits parses
  ran outcome after ran := by
    cases first : construct statement source before with
    | none => cases (recoveringStatement_none first).symm.trans ran
    | some result =>
      obtain ⟨ended, mid⟩ := result
      obtain ⟨word, reads, ends, complete⟩ := parses.ran ended mid first
      cases ended with
      | error error =>
        rw [recoveringStatement_error first] at ran
        exact ran_recovered ⟨reads, ends, complete⟩ keeps inside ran
      | ok _ =>
        cases (recoveringStatement_ok first).symm.trans ran
        obtain ⟨nests, null, sound⟩ := ends
        exact ⟨word, reads, ⟨keeps word after (fun _ => nests) (nesting.reports nests), null, sound⟩,
          complete⟩

end

end Parser

end IncrementalFrontend
