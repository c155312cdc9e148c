import IncrementalFrontend.Diagnostic.Sink
import IncrementalFrontend.Incremental.Cache

/-!
The state of a session: the revision, the cache, the queries in flight, the delivered diagnostics,
the handles that callers hold, and the world outside.
-/
namespace IncrementalFrontend

inductive Phase where
  | validating
  | computing
deriving DecidableEq, Repr

structure Frame where
  slot : Nat
  phase : Phase
  reads : List Nat
  diagnostics : List Diagnostic
deriving DecidableEq

namespace Frame

def start (slot : Nat) (phase : Phase) : Frame :=
  ⟨slot, phase, [], []⟩

def addRead (frame : Frame) (slot : Nat) : Frame :=
  if slot ∈ frame.reads then frame else { frame with reads := frame.reads ++ [slot] }

def addDiagnostic (frame : Frame) (diagnostic : Diagnostic) : Frame :=
  { frame with diagnostics := frame.diagnostics ++ [diagnostic] }

end Frame

structure Context (S : Signature) where
  revision : Revision
  cache : Cache S
  active : List Frame
  sink : Sink
  handles : List Nat
  nextIdentity : Nat
  collectsOnAdvance : Bool
  world : S.World

namespace Context

variable {S : Signature}

def start (world : S.World) (collectsOnAdvance : Bool) : Context S :=
  { revision := .start, cache := .empty, active := [], sink := .empty, handles := [],
    nextIdentity := 0, collectsOnAdvance, world }

def isInQuery (context : Context S) : Bool :=
  !context.active.isEmpty

def depth (context : Context S) : Nat :=
  context.active.length

def updateCache (context : Context S) (change : Cache S → Cache S) : Context S :=
  { context with cache := change context.cache }

def label (rules : Rules S) (context : Context S) (slot : Nat) : String :=
  match context.cache.memo? slot with
  | some memo => rules.label memo.query
  | none => s!"<evicted #{slot}>"

/-- The labels of a cycle that a request for a slot closes, if the slot is in flight. -/
def cycle? (rules : Rules S) (context : Context S) (slot : Nat) : Option (List String) :=
  match context.active.reverse.dropWhile (·.slot ≠ slot) with
  | [] => none
  | frames => some ((frames.map (·.slot) ++ [slot]).map (context.label rules))

def pushFrame (context : Context S) (slot : Nat) (phase : Phase) : Context S :=
  { context with active := .start slot phase :: context.active }

def truncate (context : Context S) (depth : Nat) : Context S :=
  { context with active := context.active.drop (context.depth - depth) }

def recordRead (context : Context S) (slot : Nat) : Context S :=
  match context.active with
  | frame :: outer =>
    if frame.phase = .computing then { context with active := frame.addRead slot :: outer }
    else context
  | [] => context

def addToFrames (diagnostic : Diagnostic) : List Frame → Option (List Frame)
  | [] => none
  | frame :: outer =>
    if frame.phase = .computing then some (frame.addDiagnostic diagnostic :: outer)
    else (addToFrames diagnostic outer).map (frame :: ·)

/-- Reports a diagnostic to the innermost computing query, which delivers it with its value, or to
the sink if no query is computing. -/
def report (context : Context S) (diagnostic : Diagnostic) : Context S :=
  match addToFrames diagnostic context.active with
  | some active => { context with active }
  | none => { context with sink := context.sink.report diagnostic }

def takeDiagnostics (context : Context S) : List Diagnostic × Context S :=
  (context.sink.diagnostics, { context with sink := .empty })

structure Summary where
  origin : Origin
  changedAt : Revision
  verifiedAt : Revision
  executions : Nat
  dependencies : List String
  diagnostics : List Diagnostic

def summary? (rules : Rules S) (context : Context S) (query : S.Query) : Option Summary :=
  (context.cache.find? query).map fun (_, entry) =>
    { origin := entry.origin, changedAt := entry.changedAt, verifiedAt := entry.verifiedAt,
      executions := entry.executions, dependencies := entry.dependencies.map (context.label rules),
      diagnostics := entry.diagnostics }

def describe (context : Context S) : String :=
  let counts := context.cache.counts
  s!"Context \x7b revision: Revision({context.revision}), stats: CacheStats \x7b " ++
    s!"slots: {context.cache.size}, executions: {counts.executions}, hits: {counts.hits}, " ++
    s!"validations: {counts.validations}, backdates: {counts.backdates}, " ++
    s!"evictions: {counts.evictions} \x7d, diagnostics: {context.sink.size}, .. \x7d"

end Context

end IncrementalFrontend
