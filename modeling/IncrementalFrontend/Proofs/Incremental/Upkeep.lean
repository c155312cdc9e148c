import IncrementalFrontend.Proofs.Incremental.Equations
import IncrementalFrontend.Proofs.Incremental.Revising

/-!
What computations ensure while the world only grows, and what memos keep of it. Only queries that
the world knows are requested, and what a computation ensured of its value, its reads and its reports
in the world of its end holds of its memo ever after.
-/
namespace IncrementalFrontend

variable {S : Signature} {rules : Rules S} {α β : Type}

namespace Cache

variable {cache : Cache S} {holds : Memo S → Prop} {slot : Nat}

def All (cache : Cache S) (holds : Memo S → Prop) : Prop :=
  ∀ slot memo, cache.memo? slot = some memo → holds memo

theorem All.put (all : cache.All holds) {memo : Memo S} (fine : holds memo) (slot : Nat) :
    (cache.put slot memo).All holds := by
  intro other found here
  rw [memo?_put] at here
  split at here
  · cases here
    exact fine
  · exact all other found here

theorem All.insert (all : cache.All holds) {query : S.Query} {origin : Origin} {revision : Revision}
    (fine : holds (newMemo query origin revision)) :
    (cache.insert query origin revision).2.All holds := by
  unfold Cache.insert
  cases free : cache.free with
  | cons slot rest =>
    have others : ({ cache with free := rest } : Cache S).All holds := all
    exact others.put fine slot
  | nil =>
    intro other found here
    unfold memo? at here
    rw [Array.getElem?_push] at here
    split at here
    · cases here
      exact fine
    · exact all other found here

theorem All.verify (all : cache.All holds) (slot : Nat) (revision : Revision)
    (fine : ∀ memo, holds memo → holds ⟨memo.query, { memo.entry with verifiedAt := revision }⟩) :
    (cache.verify slot revision).All holds := by
  unfold Cache.verify
  cases here : cache.memo? slot with
  | none => exact all
  | some memo => exact all.put (fine memo (all slot memo here)) slot

theorem All.evict (all : cache.All holds) (slots : List Nat) : (cache.evict slots).All holds :=
  fun slot memo here => all slot memo (memo?_of_evict here).2

end Cache

/-- How a world grows, which queries may be requested in it, and what it may be asked. -/
structure Growth (rules : Rules S) where
  le : S.World → S.World → Prop
  knows : S.World → S.Query → Prop
  asks : S.World → S.Request → Prop
  refl (world : S.World) : le world world
  trans {world later last : S.World} : le world later → le later last → le world last
  serve (request : S.Request) (world : S.World) : le world (rules.serve request world).2
  knows_mono {world later : S.World} {query : S.Query} :
    le world later → knows world query → knows later query

/-- Other rules compute known queries in the same way. While the world stays within bounds, they reply
as the first ones do, although they may reply by what the world comes to know only later. -/
structure Growth.Foresees (growth : Growth rules) (within : S.World → Prop) (other : Rules S) :
    Prop where
  within_of_le {world later : S.World} : growth.le world later → within later → within world
  compute {world : S.World} {query : S.Query} : growth.knows world query →
    other.compute query = rules.compute query
  isVolatile {world : S.World} {query : S.Query} : growth.knows world query →
    other.isVolatile query = rules.isVolatile query
  isUnchanged {world : S.World} {query : S.Query} : growth.knows world query →
    other.isUnchanged query = rules.isUnchanged query
  label : other.label = rules.label
  references : other.references = rules.references
  serve {world : S.World} {request : S.Request} : growth.asks world request →
    within (rules.serve request world).2 → other.serve request world = rules.serve request world

theorem Growth.foresees_self (growth : Growth rules) : growth.Foresees (fun _ => True) rules where
  within_of_le _ _ := trivial
  compute _ := rfl
  isVolatile _ := rfl
  isUnchanged _ := rfl
  label := rfl
  references := rfl
  serve _ _ := rfl

namespace Growth.Foresees

variable {growth : Growth rules} {within : S.World → Prop} {other : Rules S} {world : S.World}
  {query : S.Query} (foresees : growth.Foresees within other)

include foresees

theorem collectGarbage_eq (context : Context S) :
    context.collectGarbage other = context.collectGarbage rules := by
  have held : context.isHeld other = context.isHeld rules := by
    funext memo
    simp only [Context.isHeld, Context.isReferenced, foresees.references]
  simp only [Context.collectGarbage, Context.collectable, held]

theorem advance_eq (context : Context S) : context.advance other = context.advance rules := by
  simp only [Context.advance, foresees.collectGarbage_eq]

theorem unchangedInput?_eq (context : Context S) (known : growth.knows world query)
    (value : S.Value query) :
    context.unchangedInput? other query value = context.unchangedInput? rules query value := by
  simp only [Context.unchangedInput?, foresees.isUnchanged known]

theorem setInput_eq (context : Context S) (known : growth.knows world query) (value : S.Value query) :
    context.setInput other query value = context.setInput rules query value := by
  simp only [Context.setInput, foresees.unchangedInput?_eq context known, foresees.advance_eq]

end Growth.Foresees

/-- In a world, after some reads and reports, the computation requests known queries only, whatever
they answer, asks what may be asked, and ends in what satisfies the postcondition. -/
def Computation.Ensures (growth : Growth rules) : Computation S α → S.World → List Nat →
    List Diagnostic → (S.World → List Nat → List Diagnostic → α → Prop) → Prop
  | .pure result, world, reads, reports, post => post world reads reports result
  | .fail _, _, _, _, _ => True
  | .read query next, world, _, reports, post =>
    growth.knows world query ∧ ∀ outcome later reads, growth.le world later →
      (next outcome).Ensures growth later reads reports post
  | .ask request next, world, reads, reports, post =>
    growth.asks world request ∧ (next (rules.serve request world).1).Ensures growth
      (rules.serve request world).2 reads reports post
  | .report diagnostic next, world, reads, reports, post =>
    next.Ensures growth world reads (reports ++ [diagnostic]) post

namespace Computation.Ensures

variable {growth : Growth rules} {world : S.World} {reads : List Nat} {reports : List Diagnostic}
  {post : S.World → List Nat → List Diagnostic → α → Prop}

theorem bind {computation : Computation S α} {next : α → Computation S β}
    {post' : S.World → List Nat → List Diagnostic → β → Prop}
    (first : computation.Ensures growth world reads reports post)
    (second : ∀ later reads reports result, growth.le world later → post later reads reports result →
      (next result).Ensures growth later reads reports post') :
    (computation >>= next).Ensures growth world reads reports post' := by
  induction computation generalizing world reads reports with
  | pure result => exact second _ _ _ _ (growth.refl world) first
  | fail error => trivial
  | read query before ih =>
    refine ⟨first.1, fun outcome later reads grows => ih outcome (first.2 outcome later reads grows) ?_⟩
    exact fun last reads reports result grows' => second _ _ _ _ (growth.trans grows grows')
  | ask request before ih =>
    refine ⟨first.1, ih _ first.2 fun later reads reports result grows => ?_⟩
    exact second _ _ _ _ (growth.trans (growth.serve request world) grows)
  | report diagnostic before ih => exact ih first second

theorem mono {computation : Computation S α}
    {post' : S.World → List Nat → List Diagnostic → α → Prop}
    (ensures : computation.Ensures growth world reads reports post)
    (weaken : ∀ later reads reports result, post later reads reports result →
      post' later reads reports result) : computation.Ensures growth world reads reports post' :=
  bind_pure computation ▸
    ensures.bind fun later reads reports result _ => weaken later reads reports result

theorem orElse {first second : Computation S α} (ensures : first.Ensures growth world reads reports post)
    (other : ∀ later reads reports, growth.le world later →
      second.Ensures growth later reads reports post) :
    (first.orElse second).Ensures growth world reads reports post := by
  induction first generalizing world reads reports with
  | pure result => exact ensures
  | fail error => exact other _ _ _ (growth.refl world)
  | read query next ih =>
    refine ⟨ensures.1, fun outcome later reads grows => ih outcome (ensures.2 outcome later reads grows) ?_⟩
    exact fun last reads reports grows' => other _ _ _ (growth.trans grows grows')
  | ask request next ih =>
    refine ⟨ensures.1, ih _ ensures.2 fun later reads reports grows => ?_⟩
    exact other _ _ _ (growth.trans (growth.serve request world) grows)
  | report diagnostic next ih => exact ih ensures other

end Computation.Ensures

namespace Run

variable {growth : Growth rules} {within : S.World → Prop} {rules' : Rules S} {context : Context S}
  {slot : Nat} {query : S.Query} {post : Except QueryError α → Context S → Prop}

/-- The world grows in the course of the action, and each outcome satisfies the postcondition. While
the world stays within bounds, the other action has the same outcome. -/
def Agrees (growth : Growth rules) (within : S.World → Prop) (action other : Run S α)
    (context : Context S) (post : Except QueryError α → Context S → Prop) : Prop :=
  ∀ outcome after, action context = some (outcome, after) →
    growth.le context.world after.world ∧ post outcome after ∧
      (within after.world → other context = some (outcome, after))

theorem Agrees.mono {action other : Run S α} {stronger : Except QueryError α → Context S → Prop}
    (agrees : Agrees growth within action other context stronger)
    (weaken : ∀ outcome after, stronger outcome after → post outcome after) :
    Agrees growth within action other context post := by
  intro outcome after ran
  obtain ⟨grows, holds, follows⟩ := agrees outcome after ran
  exact ⟨grows, weaken outcome after holds, follows⟩

theorem agrees_of_eq {action other : Run S α} {outcome : Except QueryError α} {after : Context S}
    (ran : action context = some (outcome, after)) (ran' : other context = some (outcome, after))
    (world : after.world = context.world) (holds : post outcome after) :
    Agrees growth within action other context post := by
  intro outcome' after' same
  rw [ran] at same
  cases same
  exact ⟨world ▸ growth.refl _, holds, fun _ => ran'⟩

theorem agrees_pure {result : α} (holds : post (.ok result) context) :
    Agrees growth within (pure result) (pure result) context post :=
  agrees_of_eq rfl rfl rfl holds

theorem agrees_throw {error : QueryError} (holds : post (.error error) context) :
    Agrees growth within (throw error) (throw error) context post :=
  agrees_of_eq rfl rfl rfl holds

/-- Both actions go on in the same way from a context with the same world. -/
theorem Agrees.congr {action other action' other' : Run S α} {there : Context S}
    (agrees : Agrees growth within action' other' there post)
    (same : action context = action' there) (same' : other context = other' there)
    (world : there.world = context.world) : Agrees growth within action other context post := by
  intro outcome after ran
  obtain ⟨grows, holds, follows⟩ := agrees outcome after (same ▸ ran)
  exact ⟨world ▸ grows, holds, fun inside => same' ▸ follows inside⟩

theorem agrees_get_bind {next next' : Context S → Run S α}
    (agrees : Agrees growth within (next context) (next' context) context post) :
    Agrees growth within (get >>= next) (get >>= next') context post :=
  agrees.congr rfl rfl rfl

theorem agrees_modify_bind {change : Context S → Context S} {next next' : PUnit → Run S α}
    (world : (change context).world = context.world)
    (agrees : Agrees growth within (next ⟨⟩) (next' ⟨⟩) (change context) post) :
    Agrees growth within (modify change >>= next) (modify change >>= next') context post :=
  agrees.congr rfl rfl world

theorem agrees_updateCache_bind {change : Cache S → Cache S} {next next' : PUnit → Run S α}
    (agrees : Agrees growth within (next ⟨⟩) (next' ⟨⟩) (context.updateCache change) post) :
    Agrees growth within (updateCache change >>= next) (updateCache change >>= next') context post :=
  agrees.congr rfl rfl rfl

theorem agrees_popFrame_bind {frame : Frame} {outer : List Frame} {next next' : Frame → Run S α}
    (active : context.active = frame :: outer)
    (agrees : Agrees growth within (next frame) (next' frame) { context with active := outer } post) :
    Agrees growth within (popFrame outer.length >>= next) (popFrame outer.length >>= next') context
      post :=
  agrees.congr (bind_of_eq (popFrame_apply active) next) (bind_of_eq (popFrame_apply active) next') rfl

theorem checkCycle_eq (label : rules'.label = rules.label) (slot : Nat) :
    checkCycle rules' slot = checkCycle rules slot := by
  have labels (context : Context S) : context.label rules' = context.label rules := by
    funext slot
    unfold Context.label
    rw [label]
  unfold checkCycle Context.cycle?
  simp only [labels]

theorem agrees_checkCycle_bind {next next' : Unit → Run S α} (label : rules'.label = rules.label)
    (repeated : ∀ path, context.cycle? rules slot = some path → post (.error (.cycle path)) context)
    (fresh : context.cycle? rules slot = none →
      Agrees growth within (next ()) (next' ()) context post) :
    Agrees growth within (checkCycle rules slot >>= next) (checkCycle rules' slot >>= next') context
      post := by
  rw [checkCycle_eq label]
  cases found : context.cycle? rules slot with
  | none =>
    have passes := checkCycle_of_fresh found
    exact (fresh found).congr (bind_of_eq passes next) (bind_of_eq passes next') rfl
  | some path =>
    have fails := checkCycle_of_cycle found
    exact agrees_of_eq (bind_of_error fails next) (bind_of_error fails next') rfl (repeated path found)

theorem memo_apply_of_none (missing : context.cache.memo? slot = none) :
    memo slot context = some (.error (.missingSlot slot), context) := by
  unfold memo
  rw [bind_of_eq rfl, missing]
  rfl

theorem storeResult_apply_of_none {value : S.Value query} {frame : Frame}
    (missing : context.cache.entry? slot query = none) :
    storeResult rules slot query value frame context =
      some (.error (.missingSlot slot), context) := by
  unfold storeResult
  rw [bind_of_eq rfl, missing]
  rfl

/-- The memo in a slot is used if there is one. -/
theorem agrees_memo_bind {next next' : Memo S → Run S α}
    (missing : post (.error (.missingSlot slot)) context)
    (found : ∀ memo, context.cache.memo? slot = some memo →
      Agrees growth within (next memo) (next' memo) context post) :
    Agrees growth within (memo slot >>= next) (memo slot >>= next') context post := by
  cases here : context.cache.memo? slot with
  | some known =>
    have ran := memo_apply here
    exact (found known here).congr (bind_of_eq ran next) (bind_of_eq ran next') rfl
  | none =>
    have fails := memo_apply_of_none here
    exact agrees_of_eq (bind_of_error fails next) (bind_of_error fails next') rfl missing

/-- A value is stored if the slot still is that of its query. -/
theorem agrees_storeResult_bind {value : S.Value query} {frame : Frame}
    {next next' : Shared (S.Value query) → Run S α}
    (isUnchanged : rules'.isUnchanged query = rules.isUnchanged query)
    (missing : post (.error (.missingSlot slot)) context)
    (stored : ∀ entry, context.cache.memo? slot = some ⟨query, entry⟩ →
      Agrees growth within (next ⟨context.nextIdentity, value⟩) (next' ⟨context.nextIdentity, value⟩)
        (context.stored rules slot query entry value frame) post) :
    Agrees growth within (storeResult rules slot query value frame >>= next)
      (storeResult rules' slot query value frame >>= next') context post := by
  have same : storeResult rules' slot query value frame = storeResult rules slot query value frame := by
    unfold storeResult
    rw [isUnchanged]
  rw [same]
  cases here : context.cache.entry? slot query with
  | some entry =>
    have here := Cache.entry?_eq_some_iff.mp here
    have ran : storeResult rules slot query value frame context = _ :=
      storeResult_apply context value frame here
    exact (stored entry here).congr (bind_of_eq ran next) (bind_of_eq ran next') rfl
  | none =>
    have fails : storeResult rules slot query value frame context = _ := storeResult_apply_of_none here
    exact agrees_of_eq (bind_of_error fails next) (bind_of_error fails next') rfl missing

theorem agrees_ofExcept_bind {outcome : Except QueryError β} {next next' : β → Run S α}
    (error : ∀ error, outcome = .error error → post (.error error) context)
    (ok : ∀ result, outcome = .ok result → Agrees growth within (next result) (next' result) context
      post) :
    Agrees growth within (ofExcept outcome >>= next) (ofExcept outcome >>= next') context post := by
  cases outcome with
  | error raised => exact agrees_of_eq rfl rfl rfl (error raised rfl)
  | ok result => exact (ok result rfl).congr rfl rfl rfl

section

variable (foresees : growth.Foresees within rules')

include foresees

theorem agrees_bind {action other : Run S β} {next next' : β → Run S α}
    (agrees : Agrees growth within action other context fun outcome after =>
      match outcome with
      | .ok result => Agrees growth within (next result) (next' result) after post
      | .error error => post (.error error) after) :
    Agrees growth within (action >>= next) (other >>= next') context post := by
  intro outcome after ran
  rw [bind_apply] at ran
  obtain ⟨⟨first, middle⟩, began, rest⟩ := Option.bind_eq_some_iff.mp ran
  obtain ⟨grows, goesOn, follows⟩ := agrees first middle began
  cases first with
  | error error =>
    cases rest
    refine ⟨grows, goesOn, fun inside => ?_⟩
    exact bind_of_error (follows inside) next'
  | ok result =>
    obtain ⟨grows', holds, follows'⟩ := goesOn outcome after rest
    refine ⟨growth.trans grows grows', holds, fun inside => ?_⟩
    rw [bind_of_eq (follows (foresees.within_of_le grows' inside))]
    exact follows' inside

theorem agrees_attempt_bind {action other : Run S β} {next next' : Except QueryError β → Run S α}
    (agrees : Agrees growth within action other context fun outcome after =>
      Agrees growth within (next outcome) (next' outcome) after post) :
    Agrees growth within (attempt action >>= next) (attempt other >>= next') context post := by
  intro outcome after ran
  rw [attempt_bind_apply] at ran
  obtain ⟨⟨first, middle⟩, began, rest⟩ := Option.bind_eq_some_iff.mp ran
  obtain ⟨grows, goesOn, follows⟩ := agrees first middle began
  obtain ⟨grows', holds, follows'⟩ := goesOn outcome after rest
  refine ⟨growth.trans grows grows', holds, fun inside => ?_⟩
  rw [attempt_bind_apply, follows (foresees.within_of_le grows' inside)]
  exact follows' inside

theorem agrees_serve_bind {request : S.Request} {next next' : S.Reply request → Run S α}
    (asks : growth.asks context.world request)
    (agrees : Agrees growth within (next (rules.serve request context.world).1)
      (next' (rules.serve request context.world).1)
      { context with world := (rules.serve request context.world).2 } post) :
    Agrees growth within (serve rules request >>= next) (serve rules' request >>= next') context
      post := by
  intro outcome after ran
  obtain ⟨grows, holds, follows⟩ := agrees outcome after ran
  refine ⟨growth.trans (growth.serve request context.world) grows, holds, fun inside => ?_⟩
  have replied := foresees.serve asks (foresees.within_of_le grows inside)
  have served : serve rules' request context = serve rules request context := by
    show some (Except.ok (rules'.serve request context.world).1,
      { context with world := (rules'.serve request context.world).2 }) = _
    rw [replied]
    rfl
  rw [bind_apply, served]
  exact follows inside

end

end Run

/-- What is to hold of values ever after, with what their computations read and reported. -/
structure Upkeep (rules : Rules S) extends Growth rules where
  holds : S.World → (query : S.Query) → S.Value query → List Nat → List Diagnostic → Prop
  holds_mono {world later : S.World} {query : S.Query} {value : S.Value query} {reads : List Nat}
    {reports : List Diagnostic} : le world later → holds world query value reads reports →
      holds later query value reads reports
  computes {world : S.World} {query : S.Query} : knows world query →
    (rules.compute query).Ensures toGrowth world [] [] fun later reads reports value =>
      holds later query value reads reports

namespace Upkeep

structure Keeps (upkeep : Upkeep rules) (world : S.World) (memo : Memo S) : Prop where
  known : upkeep.knows world memo.query
  holds : memo.entry.origin = .derived → ∀ shared, memo.entry.value = some shared →
    upkeep.holds world memo.query shared.value memo.entry.dependencies memo.entry.diagnostics

variable {upkeep : Upkeep rules} {world later : S.World} {memo : Memo S} {query : S.Query}

theorem Keeps.mono (keeps : upkeep.Keeps world memo) (grows : upkeep.le world later) :
    upkeep.Keeps later memo where
  known := upkeep.knows_mono grows keeps.known
  holds derived shared value := upkeep.holds_mono grows (keeps.holds derived shared value)

theorem keeps_newMemo (known : upkeep.knows world query) (origin : Origin) (revision : Revision) :
    upkeep.Keeps world (Cache.newMemo query origin revision) :=
  ⟨known, nofun⟩

def Holds (upkeep : Upkeep rules) (context : Context S) : Prop :=
  context.cache.All (upkeep.Keeps context.world)

variable {context before middle after : Context S}

theorem Holds.grow {world : S.World} (holds : upkeep.Holds context)
    (grows : upkeep.le context.world world) : upkeep.Holds { context with world } :=
  fun slot memo here => (holds slot memo here).mono grows

theorem Holds.verify (holds : upkeep.Holds context) (slot : Nat) (revision : Revision) :
    upkeep.Holds (context.updateCache (·.verify slot revision)) :=
  Cache.All.verify holds slot revision fun _ keeps => ⟨keeps.known, keeps.holds⟩

structure Returns (upkeep : Upkeep rules) (before after : Context S) : Prop where
  holds : upkeep.Holds after
  active : after.active = before.active

theorem Holds.returns (holds : upkeep.Holds after) : upkeep.Returns after after :=
  ⟨holds, rfl⟩

def Serves (upkeep : Upkeep rules) (within : S.World → Prop)
    (fetch fetch' : (query : S.Query) → Run S (Nat × Shared (S.Value query))) : Prop :=
  ∀ query context, upkeep.knows context.world query → upkeep.Holds context →
    Run.Agrees upkeep.toGrowth within (fetch query) (fetch' query) context
      fun _ => upkeep.Returns context

end Upkeep

namespace Run

variable {upkeep : Upkeep rules} {within : S.World → Prop} {rules' : Rules S}
  {fetch fetch' : (query : S.Query) → Run S (Nat × Shared (S.Value query))} {context : Context S}
  {query : S.Query} {slot : Nat} {outer : List Frame} {reads : List Nat} {reports : List Diagnostic}

/-- The memo in a slot is used if there is one. -/
theorem meets_memo?_bind {total : Prop} {next : Memo S → Run S α}
    {post : Except QueryError α → Context S → Prop}
    (missing : post (.error (.missingSlot slot)) context)
    (found : ∀ memo, context.cache.memo? slot = some memo → (next memo).Meets context total post) :
    (memo slot >>= next).Meets context total post := by
  cases here : context.cache.memo? slot with
  | some memo => exact meets_memo_bind here (found memo here)
  | none => exact meets_of_eq (bind_of_error (memo_apply_of_none here) next) missing

/-- A value is stored if the slot still is that of its query. -/
theorem meets_storeResult_bind {total : Prop} {value : S.Value query} {frame : Frame}
    {next : Shared (S.Value query) → Run S α} {post : Except QueryError α → Context S → Prop}
    (missing : post (.error (.missingSlot slot)) context)
    (stored : ∀ entry, context.cache.memo? slot = some ⟨query, entry⟩ →
      (next ⟨context.nextIdentity, value⟩).Meets (context.stored rules slot query entry value frame)
        total post) :
    (storeResult rules slot query value frame >>= next).Meets context total post := by
  cases here : context.cache.entry? slot query with
  | some entry =>
    have here := Cache.entry?_eq_some_iff.mp here
    exact (stored entry here).congr (bind_of_eq (storeResult_apply context value frame here) next)
  | none => exact meets_of_eq (bind_of_error (storeResult_apply_of_none here) next) missing

structure Computes (upkeep : Upkeep rules) (slot : Nat) (outer : List Frame) (reads : List Nat)
    (reports : List Diagnostic) (context : Context S) : Prop where
  holds : upkeep.Holds context
  active : context.active = ⟨slot, .computing, reads, reports⟩ :: outer

section

variable (foresees : upkeep.Foresees within rules') (serves : upkeep.Serves within fetch fetch')

include foresees serves

theorem Computes.agrees_access (computes : Computes upkeep slot outer reads reports context)
    (known : upkeep.knows context.world query) :
    Agrees upkeep.toGrowth within (access fetch query) (access fetch' query) context fun _ after =>
      ∃ reads, Computes upkeep slot outer reads reports after := by
  have inQuery : context.isInQuery = true := by
    simp [Context.isInQuery, computes.active]
  unfold access
  refine agrees_get_bind (agrees_bind foresees ((serves query context known computes.holds).mono ?_))
  rintro (error | ⟨place, shared⟩) after ⟨holds, active⟩
  · exact ⟨reads, holds, active.trans computes.active⟩
  · simp only [inQuery, if_true]
    have frames := active.trans computes.active
    have recorded : after.recordRead place = { after with
        active := Frame.addRead ⟨slot, .computing, reads, reports⟩ place :: outer } := by
      simp [Context.recordRead, frames]
    have world : (after.recordRead place).world = after.world := by rw [recorded]
    refine agrees_modify_bind world (agrees_pure ?_)
    rw [recorded]
    unfold Frame.addRead
    split
    · exact ⟨_, holds, rfl⟩
    · exact ⟨_, holds, rfl⟩

/-- Evaluation ends in what the computation ensures. -/
theorem Computes.agrees_evaluate {computation : Computation S α}
    {post : S.World → List Nat → List Diagnostic → α → Prop}
    (computes : Computes upkeep slot outer reads reports context)
    (ensures : computation.Ensures upkeep.toGrowth context.world reads reports post) :
    Agrees upkeep.toGrowth within (evaluate rules fetch computation)
      (evaluate rules' fetch' computation) context fun outcome after =>
        ∃ reads reports, Computes upkeep slot outer reads reports after ∧
          ∀ value, outcome = .ok value → post after.world reads reports value := by
  induction computation generalizing context reads reports with
  | pure result =>
    refine agrees_pure ⟨reads, reports, computes, ?_⟩
    rintro _ ⟨⟩
    exact ensures
  | fail error => exact agrees_throw ⟨reads, reports, computes, nofun⟩
  | read other next ih =>
    refine agrees_attempt_bind foresees ?_
    intro outcome middle ran
    obtain ⟨grows, ⟨reads, computes⟩, follows⟩ :=
      computes.agrees_access foresees serves ensures.1 outcome middle ran
    exact ⟨grows, ih _ computes (ensures.2 _ _ _ grows), follows⟩
  | ask request next ih =>
    have grows := upkeep.serve request context.world
    exact agrees_serve_bind foresees ensures.1
      (ih _ ⟨computes.holds.grow grows, computes.active⟩ ensures.2)
  | report diagnostic next ih =>
    have reported : context.report diagnostic =
        { context with active := ⟨slot, .computing, reads, reports ++ [diagnostic]⟩ :: outer } := by
      simp [Context.report, computes.active, Context.addToFrames, Frame.addDiagnostic]
    have told : Computes upkeep slot outer reads (reports ++ [diagnostic])
        (context.report diagnostic) := by
      rw [reported]
      exact ⟨computes.holds, rfl⟩
    have world : (context.report diagnostic).world = context.world := by rw [reported]
    exact agrees_modify_bind world (ih told (world ▸ ensures))

theorem agrees_execute (holds : upkeep.Holds context) (known : upkeep.knows context.world query) :
    Agrees upkeep.toGrowth within (execute rules fetch slot query) (execute rules' fetch' slot query)
      context fun _ => upkeep.Returns context := by
  have computes : Computes upkeep slot context.active [] [] (context.pushFrame slot .computing) :=
    ⟨holds, rfl⟩
  unfold execute
  rw [foresees.compute known]
  refine agrees_checkCycle_bind foresees.label (fun _ _ => holds.returns) fun _ => ?_
  refine agrees_get_bind (agrees_modify_bind rfl (agrees_attempt_bind foresees ?_))
  intro outcome after ran
  obtain ⟨grows, ⟨reads, reports, computes, ensured⟩, follows⟩ :=
    computes.agrees_evaluate foresees serves (upkeep.computes known) outcome after ran
  refine ⟨grows, agrees_popFrame_bind computes.active (agrees_ofExcept_bind ?_ ?_), follows⟩
  · rintro error rfl
    exact ⟨computes.holds, rfl⟩
  · rintro value rfl
    refine agrees_storeResult_bind (foresees.isUnchanged known) ⟨computes.holds, rfl⟩ fun entry _ => ?_
    refine agrees_pure ⟨Cache.All.put computes.holds ?_ slot, rfl⟩
    refine ⟨upkeep.knows_mono grows known, ?_⟩
    rintro - _ ⟨⟩
    exact ensured value rfl

theorem agrees_areUnchanged (since : Revision) (slots : List Nat) (holds : upkeep.Holds context) :
    Agrees upkeep.toGrowth within (areUnchanged fetch since slots) (areUnchanged fetch' since slots)
      context fun _ => upkeep.Returns context := by
  induction slots generalizing context with
  | nil => exact agrees_pure holds.returns
  | cons slot rest ih =>
    have counted : upkeep.Returns context (context.updateCache Cache.countValidation) := ⟨holds, rfl⟩
    unfold areUnchanged
    refine agrees_updateCache_bind (agrees_memo_bind counted fun memo here => ?_)
    have known := (counted.holds slot memo here).known
    refine agrees_bind foresees ((serves memo.query _ known counted.holds).mono ?_)
    rintro (error | ⟨place, shared⟩) after ⟨holds, active⟩
    · exact ⟨holds, active⟩
    · refine agrees_memo_bind ⟨holds, active⟩ fun memo here => ?_
      split
      · exact agrees_pure ⟨holds, active⟩
      · exact (ih holds).mono fun _ _ returns => ⟨returns.holds, returns.active.trans active⟩

theorem agrees_isUpToDate (verifiedAt : Revision) (holds : upkeep.Holds context) :
    Agrees upkeep.toGrowth within (isUpToDate fetch slot verifiedAt)
      (isUpToDate fetch' slot verifiedAt) context fun _ => upkeep.Returns context := by
  have pushed : upkeep.Holds (context.pushFrame slot .validating) := holds
  unfold isUpToDate
  refine agrees_memo_bind holds.returns fun memo _ => ?_
  refine agrees_get_bind (agrees_modify_bind rfl (agrees_attempt_bind foresees ?_))
  refine (agrees_areUnchanged foresees serves verifiedAt _ pushed).mono ?_
  rintro outcome after ⟨holds, active⟩
  have truncated : after.truncate context.depth = { after with active := context.active } := by
    simp [Context.truncate, Context.depth, active, Context.pushFrame]
  have ended : upkeep.Returns context (after.truncate context.depth) := by
    rw [truncated]
    exact ⟨holds, rfl⟩
  refine agrees_modify_bind rfl ?_
  cases outcome with
  | ok isUnchanged => exact agrees_pure ended
  | error error => exact agrees_throw ended

theorem agrees_fromMemo {entry : Entry S query} {shared : Shared (S.Value query)}
    (holds : upkeep.Holds context) (known : upkeep.knows context.world query) :
    Agrees upkeep.toGrowth within (fromMemo rules fetch slot query entry shared)
      (fromMemo rules' fetch' slot query entry shared) context fun _ => upkeep.Returns context := by
  unfold fromMemo
  rw [foresees.isVolatile known]
  refine agrees_get_bind ?_
  by_cases now : entry.verifiedAt = context.revision
  · simp only [if_pos now]
    exact agrees_updateCache_bind (agrees_pure ⟨holds, rfl⟩)
  simp only [if_neg now]
  by_cases isInput : entry.origin = .input
  · simp only [if_pos isInput]
    exact agrees_updateCache_bind (agrees_pure ⟨holds.verify slot _, rfl⟩)
  simp only [if_neg isInput]
  by_cases isVolatile : rules.isVolatile query
  · simp only [if_pos isVolatile]
    exact agrees_execute foresees serves holds known
  simp only [if_neg isVolatile]
  refine agrees_checkCycle_bind foresees.label (fun _ _ => holds.returns) fun _ => ?_
  refine agrees_bind foresees ?_
  intro outcome after ran
  obtain ⟨grows, returns, follows⟩ :=
    agrees_isUpToDate foresees serves entry.verifiedAt holds outcome after ran
  refine ⟨grows, ?_, follows⟩
  cases outcome with
  | error error => exact returns
  | ok isUnchanged =>
    have verified := returns.holds.verify slot context.revision
    have known := upkeep.knows_mono grows known
    dsimp only
    split
    · exact agrees_updateCache_bind (agrees_pure ⟨verified, returns.active⟩)
    · refine (agrees_execute foresees serves returns.holds known).mono ?_
      exact fun _ _ returns' => ⟨returns'.holds, returns'.active.trans returns.active⟩

theorem agrees_answer (holds : upkeep.Holds context) (known : upkeep.knows context.world query) :
    Agrees upkeep.toGrowth within (answer rules fetch query) (answer rules' fetch' query) context
      fun _ => upkeep.Returns context := by
  unfold answer
  refine agrees_get_bind ?_
  split
  · have inserted : upkeep.Holds { context with
        cache := (context.cache.insert query .derived context.revision).2 } :=
      Cache.All.insert holds (Upkeep.keeps_newMemo known _ _)
    have executes (slot : Nat) : Agrees upkeep.toGrowth within (execute rules fetch slot query)
        (execute rules' fetch' slot query) _ _ :=
      agrees_execute foresees serves inserted known
    refine Agrees.congr ((executes _).mono ?_) rfl rfl rfl
    exact fun _ _ returns => ⟨returns.holds, returns.active⟩
  · split
    · exact agrees_execute foresees serves holds known
    · exact agrees_fromMemo foresees serves holds known

end

/-- However deep requests nest, they keep up the memos, and other rules that foresee the replies answer
them alike. -/
theorem serves_upkeep (foresees : upkeep.Foresees within rules') (depth : Nat) :
    upkeep.Serves within (Run.fetch rules depth) (Run.fetch rules' depth) := by
  induction depth with
  | zero => exact fun _ _ _ _ _ _ ran => nomatch ran
  | succ depth ih => exact fun query context known holds => agrees_answer foresees ih holds known

end Run

namespace Upkeep

variable {upkeep : Upkeep rules} {context after : Context S} {query : S.Query}

theorem Holds.request {within : S.World → Prop} {rules' : Rules S} (holds : upkeep.Holds context)
    (foresees : upkeep.Foresees within rules') (known : upkeep.knows context.world query)
    (idle : context.active = []) {depth : Nat} {outcome : Except QueryError (Shared (S.Value query))}
    (ran : Run.request rules depth query context = some (outcome, after)) :
    upkeep.le context.world after.world ∧ upkeep.Holds after ∧
      (within after.world → Run.request rules' depth query context = some (outcome, after)) := by
  have outside : context.isInQuery = false := by simp [Context.isInQuery, idle]
  have agrees : Run.Agrees upkeep.toGrowth within (Run.request rules depth query)
      (Run.request rules' depth query) context fun _ => upkeep.Holds := by
    unfold Run.request Run.access
    refine Run.agrees_get_bind (Run.agrees_bind foresees
      ((Run.serves_upkeep foresees depth query context known holds).mono ?_))
    rintro (error | ⟨slot, shared⟩) after ⟨holds, -⟩
    · exact holds
    · simp only [outside, Bool.false_eq_true, if_false]
      unfold Run.deliver
      refine Run.agrees_bind foresees
        (Run.agrees_get_bind (Run.agrees_ofExcept_bind (fun _ _ => holds) ?_))
      intro diagnostics _
      exact Run.agrees_of_eq rfl rfl rfl (Run.agrees_of_eq rfl rfl rfl holds)
  exact agrees outcome after ran

theorem Holds.collectGarbage (holds : upkeep.Holds context) :
    upkeep.Holds (context.collectGarbage rules).2 :=
  Cache.All.evict holds _

theorem Holds.advance (holds : upkeep.Holds context) : upkeep.Holds (context.advance rules) := by
  unfold Context.advance
  split
  · exact holds.collectGarbage
  · exact holds

theorem Holds.storeInput (holds : upkeep.Holds context) (known : upkeep.knows context.world query)
    (value : S.Value query) : upkeep.Holds (context.storeInput query value) := by
  have fine (executions : Nat) : upkeep.Keeps context.world ⟨query, some ⟨context.nextIdentity, value⟩,
      .input, context.revision, context.revision, [], [], executions⟩ := ⟨known, nofun⟩
  unfold Context.storeInput
  cases context.cache.find? query with
  | some found => exact Cache.All.put holds (fine _) found.1
  | none => exact Cache.All.put (Cache.All.insert holds (keeps_newMemo known _ _)) (fine _) _

/-- Neither a new revision nor an input changes the world. -/
theorem world_advance (rules : Rules S) (context : Context S) :
    (context.advance rules).world = context.world := by
  unfold Context.advance
  split <;> rfl

theorem world_setInput (rules : Rules S) (context : Context S) (value : S.Value query) :
    (context.setInput rules query value).2.world = context.world := by
  unfold Context.setInput
  split
  · rfl
  · exact world_advance rules context

theorem Holds.setInput (holds : upkeep.Holds context) (known : upkeep.knows context.world query)
    (value : S.Value query) : upkeep.Holds (context.setInput rules query value).2 := by
  unfold Context.setInput
  split
  · exact holds
  · exact holds.advance.storeInput (world_advance rules context ▸ known) value

end Upkeep

end IncrementalFrontend
