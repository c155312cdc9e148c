import IncrementalFrontend.Incremental.Context

/-!
Changes between requests: new revisions, inputs set from outside, and the collection of memos that
the current revision did not need.
-/
namespace IncrementalFrontend

namespace Context

variable {S : Signature}

def isReferenced (rules : Rules S) (context : Context S) (identity : Nat) : Bool :=
  context.cache.liveSlots.any fun slot =>
    (context.cache.memo? slot).any fun memo => identity ∈ rules.references memo.query

/-- Whether the value of a memo is shared beyond its slot: with a caller or a cached query. -/
def isHeld (rules : Rules S) (context : Context S) (memo : Memo S) : Bool :=
  memo.entry.value.any fun shared =>
    shared.identity ∈ context.handles || context.isReferenced rules shared.identity

def isStale (context : Context S) (memo : Memo S) : Bool :=
  memo.entry.origin == .derived &&
    (memo.entry.value.isNone || memo.entry.verifiedAt != context.revision)

def slotsWith (context : Context S) (property : Memo S → Bool) : List Nat :=
  context.cache.liveSlots.filter fun slot => (context.cache.memo? slot).any property

/-- The slots to empty: the stale ones that are neither held nor needed by a held memo. -/
def collectable (rules : Rules S) (context : Context S) : List Nat :=
  let held := context.slotsWith (context.isHeld rules)
  let unneeded := context.cache.unreached context.cache.liveSlots held
  (context.slotsWith context.isStale).filter (· ∈ unneeded)

def collectGarbage (rules : Rules S) (context : Context S) : Nat × Context S :=
  let slots := context.collectable rules
  (slots.length, context.updateCache (·.evict slots))

def advance (rules : Rules S) (context : Context S) : Context S :=
  let context :=
    if context.collectsOnAdvance then (context.collectGarbage rules).2 else context
  { context with revision := context.revision + 1 }

def unchangedInput? (rules : Rules S) (context : Context S) (query : S.Query)
    (value : S.Value query) : Option Revision :=
  match context.cache.find? query with
  | some (_, entry) =>
    if entry.origin = .input ∧
        entry.value.any (fun old => rules.isUnchanged query old.value value) then
      some entry.changedAt
    else none
  | none => none

def storeInput (context : Context S) (query : S.Query) (value : S.Value query) : Context S :=
  let (slot, cache) :=
    match context.cache.find? query with
    | some (slot, _) => (slot, context.cache)
    | none => context.cache.insert query .input context.revision
  let executions := ((cache.entry? slot query).map (·.executions)).getD 0
  let memo : Memo S :=
    ⟨query, some ⟨context.nextIdentity, value⟩, .input, context.revision, context.revision, [], [],
      executions⟩
  { context with cache := cache.put slot memo, nextIdentity := context.nextIdentity + 1 }

/-- Sets an input and tells the revision of its last change. A change starts a new revision;
setting what is already there does nothing. -/
def setInput (rules : Rules S) (context : Context S) (query : S.Query) (value : S.Value query) :
    Revision × Context S :=
  match context.unchangedInput? rules query value with
  | some revision => (revision, context)
  | none =>
    let context := context.advance rules
    (context.revision, context.storeInput query value)

end Context

end IncrementalFrontend
