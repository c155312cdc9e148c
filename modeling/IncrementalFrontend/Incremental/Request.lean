import IncrementalFrontend.Incremental.Context

/-!
Answering a query. A memo verified in the current revision answers at once; an older one answers if
none of its dependencies changed since it was last verified; otherwise the query is computed, and a
value that is no change keeps the revision of the old one. Requests nest, so they draw on a depth,
and there is no outcome at all if it runs out.
-/
namespace IncrementalFrontend

/-- An action on a context that may end in an error; what it did before stays done. -/
abbrev Run (S : Signature) (α : Type) :=
  ExceptT QueryError (StateT (Context S) Option) α

namespace Run

variable {S : Signature} {α : Type}

def exhausted : Run S α :=
  fun _ => none

def attempt (action : Run S α) : Run S (Except QueryError α) :=
  fun context => (action context).map fun (outcome, context) => (.ok outcome, context)

def ofExcept : Except QueryError α → Run S α
  | .ok result => return result
  | .error error => throw error

def updateCache (change : Cache S → Cache S) : Run S Unit :=
  modify (·.updateCache change)

def memo (slot : Nat) : Run S (Memo S) := do
  match (← get).cache.memo? slot with
  | some memo => return memo
  | none => throw (.missingSlot slot)

def checkCycle (rules : Rules S) (slot : Nat) : Run S Unit := do
  match (← get).cycle? rules slot with
  | some path => throw (.cycle path)
  | none => return ()

def recordRead (slot : Nat) : Run S Unit :=
  modify (·.recordRead slot)

def deliver (slot : Nat) : Run S Unit := do
  let diagnostics ← ofExcept ((← get).cache.diagnosticsBelow slot)
  modify fun context => { context with sink := context.sink.append diagnostics }

def popFrame (depth : Nat) : Run S Frame := do
  let context ← get
  set (context.truncate depth)
  match context.active with
  | frame :: outer => if outer.length = depth then return frame else throw .stackMismatch
  | [] => throw .stackMismatch

def serve (rules : Rules S) (request : S.Request) : Run S (S.Reply request) :=
  modifyGet fun context =>
    let (reply, world) := rules.serve request context.world
    (reply, { context with world })

def storeResult (rules : Rules S) (slot : Nat) (query : S.Query) (value : S.Value query)
    (frame : Frame) : Run S (Shared (S.Value query)) := do
  let context ← get
  match context.cache.entry? slot query with
  | none => throw (.missingSlot slot)
  | some entry =>
    let isBackdated := entry.value.any fun old => rules.isUnchanged query old.value value
    let shared : Shared (S.Value query) := ⟨context.nextIdentity, value⟩
    let entry : Entry S query :=
      { entry with
        value := some shared
        changedAt := if isBackdated then entry.changedAt else context.revision
        verifiedAt := context.revision
        dependencies := frame.reads
        diagnostics := frame.diagnostics
        executions := entry.executions + 1 }
    set { context with
      cache := (context.cache.put slot ⟨query, entry⟩).countExecution isBackdated
      nextIdentity := context.nextIdentity + 1 }
    return shared

section

variable (rules : Rules S) (fetch : (query : S.Query) → Run S (Nat × Shared (S.Value query)))

/-- Fetches a value for a caller. A caller in flight notes the read; for one outside, the
diagnostics are delivered. -/
def access (query : S.Query) : Run S (Shared (S.Value query)) := do
  let isInQuery := (← get).isInQuery
  let (slot, shared) ← fetch query
  if isInQuery then recordRead slot else deliver slot
  return shared

def evaluate : Computation S α → Run S α
  | .pure result => return result
  | .fail error => throw error
  | .read query next => do
    let outcome ← attempt (access fetch query)
    evaluate (next (outcome.map (·.value)))
  | .ask request next => do
    let reply ← serve rules request
    evaluate (next reply)
  | .report diagnostic next => do
    modify (·.report diagnostic)
    evaluate next

/-- Brings slots up to date in order, and stops at the first that changed after a revision. -/
def areUnchanged (since : Revision) : List Nat → Run S Bool
  | [] => return true
  | slot :: rest => do
    updateCache Cache.countValidation
    let _ ← fetch (← memo slot).query
    if since < (← memo slot).entry.changedAt then return false
    areUnchanged since rest

def isUpToDate (slot : Nat) (verifiedAt : Revision) : Run S Bool := do
  let dependencies := (← memo slot).entry.dependencies
  let depth := (← get).depth
  modify (·.pushFrame slot .validating)
  let outcome ← attempt (areUnchanged fetch verifiedAt dependencies)
  modify (·.truncate depth)
  ofExcept outcome

/-- Computes a query and stores its value. A failure leaves the memo as it was. -/
def execute (slot : Nat) (query : S.Query) : Run S (Nat × Shared (S.Value query)) := do
  checkCycle rules slot
  let depth := (← get).depth
  modify (·.pushFrame slot .computing)
  let outcome ← attempt (evaluate rules fetch (rules.compute query))
  let frame ← popFrame depth
  let value ← ofExcept outcome
  return (slot, ← storeResult rules slot query value frame)

def fromMemo (slot : Nat) (query : S.Query) (entry : Entry S query)
    (shared : Shared (S.Value query)) : Run S (Nat × Shared (S.Value query)) := do
  let revision := (← get).revision
  if entry.verifiedAt = revision then
    updateCache Cache.countHit
    return (slot, shared)
  if entry.origin = .input then
    updateCache (·.verify slot revision)
    return (slot, shared)
  if rules.isVolatile query then
    execute rules fetch slot query
  else
    checkCycle rules slot
    if ← isUpToDate fetch slot entry.verifiedAt then
      updateCache (·.verify slot revision)
      return (slot, shared)
    execute rules fetch slot query

def answer (query : S.Query) : Run S (Nat × Shared (S.Value query)) := do
  match (← get).cache.find? query with
  | none =>
    let slot ← modifyGet fun context =>
      let (slot, cache) := context.cache.insert query .derived context.revision
      (slot, { context with cache })
    execute rules fetch slot query
  | some (slot, entry) =>
    match entry.value with
    | none => execute rules fetch slot query
    | some shared => fromMemo rules fetch slot query entry shared

end

/-- Answers a query, with requests nested down to a depth. -/
def fetch (rules : Rules S) : (depth : Nat) → (query : S.Query) → Run S (Nat × Shared (S.Value query))
  | 0, _ => exhausted
  | depth + 1, query => answer rules (fetch rules depth) query

def request (rules : Rules S) (depth : Nat) (query : S.Query) : Run S (Shared (S.Value query)) :=
  access (fetch rules depth) query

end Run

end IncrementalFrontend
