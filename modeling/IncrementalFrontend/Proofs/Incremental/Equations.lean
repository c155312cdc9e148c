import IncrementalFrontend.Proofs.Incremental.Answering

/-!
Requests that succeed, step by step. Each way to answer a query has one equation, which tells the
context that it leaves.
-/
namespace IncrementalFrontend

variable {S : Signature} {rules : Rules S}
  {fetch : (query : S.Query) → Run S (Nat × Shared (S.Value query))} {context after : Context S}
  {query : S.Query} {slot : Nat} {entry : Entry S query} {shared : Shared (S.Value query)}
  {value : S.Value query} {frame : Frame}

/-- Counts say nothing about where memos are. -/
theorem Cache.WellFormed.counted {cache : Cache S} (sound : cache.WellFormed) (counts : CacheCounts) :
    ({ cache with counts } : Cache S).WellFormed :=
  ⟨sound.unique, sound.nodup_free, sound.mem_free⟩

namespace Cache

variable {cache : Cache S} {other : Nat}

theorem find?_eq_none (absent : ∀ slot, cache.query? slot ≠ some query) :
    cache.find? query = none := by
  cases found : cache.find? query with
  | none => rfl
  | some result => exact absurd (query?_eq (memo?_of_find? found)) (absent result.1)

/-- What was not set was computed. -/
theorem derived_of_input?_eq_none {slot : Nat} {entry : Entry S query} {shared : Shared (S.Value query)}
    (sound : cache.WellFormed) (free : cache.input? query = none)
    (here : cache.memo? slot = some ⟨query, entry⟩) (value : entry.value = some shared) :
    entry.origin = .derived := by
  cases origin : entry.origin with
  | derived => rfl
  | input =>
    have isInput : cache.input? query = some shared.value := (input?_eq_some_iff sound).mpr
      ⟨slot, entry, here, origin, congrArg (Option.map (·.value)) value⟩
    cases free.symm.trans isInput

namespace WellFormed

variable (sound : cache.WellFormed)

include sound

/-- A query that had no slot has none after another one got its slot. -/
theorem absent_insert {first : S.Query} (different : first ≠ query) (origin : Origin)
    (revision : Revision) (absent : ∀ slot, cache.query? slot ≠ some query) (slot : Nat) :
    (cache.insert first origin revision).2.query? slot ≠ some query := by
  unfold query?
  rw [sound.memo?_insert]
  split
  · exact fun same => different (Option.some.inj same)
  · exact absent slot

end WellFormed

section Put

variable {first second old old' : Memo S} (different : other ≠ slot)
  (here : cache.memo? slot = some old) (there : cache.memo? other = some old')

include different here there

theorem memo?_put_put (place : Nat) :
    ((cache.put other second).put slot first).memo? place =
      if place = slot then some first
      else if place = other then some second else cache.memo? place := by
  have live : (cache.put other second).memo? slot = some old :=
    (memo?_put_of_live there slot).trans ((if_neg different.symm).trans here)
  rw [memo?_put_of_live live, memo?_put_of_live there]

theorem WellFormed.put_put (sound : cache.WellFormed) (same : first.query = old.query)
    (same' : second.query = old'.query) : ((cache.put other second).put slot first).WellFormed := by
  have live : (cache.put other second).memo? slot = some old :=
    (memo?_put_of_live there slot).trans ((if_neg different.symm).trans here)
  exact (sound.put there same').put live same

end Put

end Cache

theorem Context.cycle?_of_idle (rules : Rules S) (idle : context.active = []) (slot : Nat) :
    context.cycle? rules slot = none := by
  simp [cycle?, idle]

theorem Context.cycle?_of_ne (rules : Rules S) (alone : context.active = [frame])
    (different : frame.slot ≠ slot) : context.cycle? rules slot = none := by
  simp [cycle?, alone, different]

def Context.stored (context : Context S) (rules : Rules S) (slot : Nat) (query : S.Query)
    (entry : Entry S query) (value : S.Value query) (frame : Frame) : Context S :=
  { context with
    cache :=
      (context.cache.put slot ⟨query,
        entry.recomputed rules context.revision ⟨context.nextIdentity, value⟩ frame⟩).countExecution
          (entry.isBackdated rules value)
    nextIdentity := context.nextIdentity + 1 }

namespace Run

/-- A query that is not in flight is computed, and its value stored. -/
theorem execute_eq (fresh : context.cycle? rules slot = none)
    (computed : evaluate rules fetch (rules.compute query) (context.pushFrame slot .computing) =
      some (.ok value, after))
    (active : after.active = frame :: context.active)
    (here : after.cache.memo? slot = some ⟨query, entry⟩) :
    execute rules fetch slot query context = some (.ok (slot, ⟨after.nextIdentity, value⟩),
      ({ after with active := context.active } : Context S).stored rules slot query entry value
        frame) := by
  let popped : Context S := { after with active := context.active }
  have stored : storeResult rules slot query value frame popped = _ :=
    storeResult_apply popped value frame here
  have pop : popFrame context.depth after = some (.ok frame, popped) := popFrame_apply active
  rw [execute_of_fresh fresh, computed]
  show finish rules slot context.depth query (.ok value) after = _
  rw [finish, bind_of_eq pop, bind_of_eq rfl, bind_of_eq stored]
  rfl

/-- A query in flight is not computed. -/
theorem execute_of_cycle {labels : List String} (cycle : context.cycle? rules slot = some labels) :
    execute rules fetch slot query context = some (.error (.cycle labels), context) := by
  unfold execute
  exact bind_of_error (checkCycle_of_cycle cycle) _

/-- A computation that fails leaves its frame, and nothing is stored. -/
theorem execute_of_error {error : QueryError} (fresh : context.cycle? rules slot = none)
    (failed : evaluate rules fetch (rules.compute query) (context.pushFrame slot .computing) =
      some (.error error, after))
    (active : after.active = frame :: context.active) :
    execute rules fetch slot query context =
      some (.error error, { after with active := context.active }) := by
  have pop : popFrame context.depth after =
      some (.ok frame, { after with active := context.active }) := popFrame_apply active
  rw [execute_of_fresh fresh, failed]
  show finish rules slot context.depth query (.error error) after = _
  rw [finish, bind_of_eq pop]
  rfl

/-- A memo of the current revision answers at once. -/
theorem answer_eq_of_current (found : context.cache.find? query = some (slot, entry))
    (value : entry.value = some shared) (current : entry.verifiedAt = context.revision) :
    answer rules fetch query context =
      some (.ok (slot, shared), context.updateCache Cache.countHit) := by
  unfold answer
  rw [bind_of_eq rfl, found]
  simp only [value]
  unfold fromMemo
  rw [bind_of_eq rfl, if_pos current]
  rfl

/-- An input of an earlier revision answers without a check. -/
theorem answer_eq_of_input (found : context.cache.find? query = some (slot, entry))
    (value : entry.value = some shared) (older : entry.verifiedAt ≠ context.revision)
    (isInput : entry.origin = .input) :
    answer rules fetch query context =
      some (.ok (slot, shared), context.updateCache (·.verify slot context.revision)) := by
  unfold answer
  rw [bind_of_eq rfl, found]
  simp only [value]
  unfold fromMemo
  rw [bind_of_eq rfl, if_neg older, if_pos isInput]
  rfl

/-- An older memo answers once its dependencies are found unchanged. -/
theorem answer_eq_of_checked (older : HasOlder context query slot entry)
    (value : entry.value = some shared) (steady : rules.isVolatile query = false)
    (fresh : context.cycle? rules slot = none)
    (checked : areUnchanged fetch entry.verifiedAt entry.dependencies
      (context.pushFrame slot .validating) = some (.ok true, after))
    (active : after.active = (context.pushFrame slot .validating).active) :
    answer rules fetch query context = some (.ok (slot, shared),
      { after with
        active := context.active
        cache := after.cache.verify slot context.revision }) := by
  have truncated : after.truncate context.depth = { after with active := context.active } := by
    simp [Context.truncate, Context.depth, active, Context.pushFrame]
  have upToDate : isUpToDate fetch slot entry.verifiedAt context =
      some (.ok true, { after with active := context.active }) := by
    rw [isUpToDate_eq (Cache.memo?_of_find? older.found), checked, ← truncated]
    rfl
  obtain ⟨shared', same, answers⟩ : ∃ shared, entry.value = some shared ∧
      answer rules fetch query context = _ := older.answer_of_steady steady fresh
  obtain rfl := Option.some.inj (value.symm.trans same)
  rw [answers, bind_of_eq upToDate]
  rfl

theorem access_of_ok (inQuery : context.isInQuery = true)
    (answered : fetch query context = some (.ok (slot, shared), after)) :
    access fetch query context = some (.ok shared, after.recordRead slot) := by
  unfold access
  rw [bind_of_eq rfl, bind_of_eq answered, inQuery]
  rfl

theorem access_of_error {error : QueryError}
    (failed : fetch query context = some (.error error, after)) :
    access fetch query context = some (.error error, after) := by
  unfold access
  rw [bind_of_eq rfl, bind_of_error failed]

theorem access_of_none (stuck : fetch query context = none) : access fetch query context = none := by
  unfold access
  rw [bind_of_eq rfl, bind_apply, stuck]
  rfl

/-- A read within a query is a request, and is noted if it is answered. -/
theorem access_cases {outcome : Except QueryError (Shared (S.Value query))}
    (inQuery : context.isInQuery = true)
    (ran : access fetch query context = some (outcome, after)) :
    (∃ slot shared there, fetch query context = some (.ok (slot, shared), there) ∧
      outcome = .ok shared ∧ after = there.recordRead slot) ∨
    ∃ error, fetch query context = some (.error error, after) ∧ outcome = .error error := by
  cases fetched : fetch query context with
  | none => cases (access_of_none fetched).symm.trans ran
  | some result =>
    obtain ⟨⟨error⟩ | ⟨slot, shared⟩, there⟩ := result
    · cases (access_of_error fetched).symm.trans ran
      exact .inr ⟨_, rfl, rfl⟩
    · cases (access_of_ok inQuery fetched).symm.trans ran
      exact .inl ⟨slot, shared, there, rfl, rfl, rfl⟩

/-- A read within a computation is noted in its frame. -/
theorem evaluate_read {α : Type} {next : Except QueryError (S.Value query) → Computation S α}
    {outer : List Frame} (answered : fetch query context = some (.ok (slot, shared), after))
    (inQuery : context.isInQuery = true) (active : after.active = frame :: outer)
    (computing : frame.phase = .computing) :
    evaluate rules fetch (.read query next) context =
      evaluate rules fetch (next (.ok shared.value))
        { after with active := frame.addRead slot :: outer } := by
  have noted : after.recordRead slot = { after with active := frame.addRead slot :: outer } := by
    simp [Context.recordRead, active, computing]
  rw [evaluate, attempt_bind_apply, access_of_ok inQuery answered, noted]
  rfl

/-- A read that fails hands on its error. -/
theorem evaluate_read_of_error {α : Type}
    {next : Except QueryError (S.Value query) → Computation S α} {error : QueryError}
    (failed : fetch query context = some (.error error, after)) :
    evaluate rules fetch (.read query next) context =
      evaluate rules fetch (next (.error error)) after := by
  rw [evaluate, attempt_bind_apply, access_of_error failed]
  rfl

theorem evaluate_read_of_none {α : Type}
    {next : Except QueryError (S.Value query) → Computation S α}
    (stuck : fetch query context = none) : evaluate rules fetch (.read query next) context = none := by
  rw [evaluate, attempt_bind_apply, access_of_none stuck]
  rfl

theorem evaluate_value {α : Type} {next : S.Value query → Computation S α} {outer : List Frame}
    (answered : fetch query context = some (.ok (slot, shared), after))
    (inQuery : context.isInQuery = true) (active : after.active = frame :: outer)
    (computing : frame.phase = .computing) :
    evaluate rules fetch (Computation.value query >>= next) context =
      evaluate rules fetch (next shared.value)
        { after with active := frame.addRead slot :: outer } :=
  evaluate_read answered inQuery active computing

/-- A report within a computation is kept in its frame. -/
theorem evaluate_report {α : Type} {next : Computation S α} {diagnostic : Diagnostic}
    {outer : List Frame} (active : context.active = frame :: outer)
    (computing : frame.phase = .computing) :
    evaluate rules fetch (.report diagnostic next) context =
      evaluate rules fetch next
        { context with active := frame.addDiagnostic diagnostic :: outer } := by
  have kept : context.report diagnostic =
      { context with active := frame.addDiagnostic diagnostic :: outer } := by
    simp [Context.report, active, Context.addToFrames, computing]
  rw [evaluate, ← kept]
  rfl

/-- Reports are kept in order. -/
theorem evaluate_forM_tell {α : Type} (next : Computation S α) (diagnostics : List Diagnostic)
    {outer : List Frame} (active : context.active = frame :: outer)
    (computing : frame.phase = .computing) :
    evaluate rules fetch (diagnostics.forM Computation.tell >>= fun _ => next) context =
      evaluate rules fetch next { context with
        active := { frame with diagnostics := frame.diagnostics ++ diagnostics } :: outer } := by
  induction diagnostics generalizing context frame with
  | nil =>
    rw [List.append_nil, ← active]
    rfl
  | cons diagnostic rest ih =>
    have reported : evaluate rules fetch
        (.report diagnostic (rest.forM Computation.tell >>= fun _ => next)) context = _ :=
      evaluate_report active computing
    refine reported.trans ?_
    have computing : (frame.addDiagnostic diagnostic).phase = .computing := computing
    rw [ih rfl computing]
    simp [Frame.addDiagnostic]

/-- A request from outside delivers the diagnostics below its query. -/
theorem request_eq {depth : Nat} {diagnostics : List Diagnostic} (idle : context.active = [])
    (answered : Run.fetch rules depth query context = some (.ok (slot, shared), after))
    (below : after.cache.diagnosticsBelow slot = .ok diagnostics) :
    request rules depth query context =
      some (.ok shared, { after with sink := after.sink.append diagnostics }) := by
  have outside : context.isInQuery = false := by simp [Context.isInQuery, idle]
  unfold request access
  rw [bind_of_eq rfl, bind_of_eq answered, outside]
  show (deliver slot >>= fun _ => pure shared : Run S (Shared (S.Value query))) after = _
  rw [bind_of_eq (deliver_apply below)]
  rfl

end Run

end IncrementalFrontend
