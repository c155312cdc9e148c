import IncrementalFrontend.Incremental.Computation

/-!
The cache keeps a memo for each query in a slot. The number of a slot is the address of its query
while the query is cached; the number of an emptied slot goes to the next new query.
-/
namespace IncrementalFrontend

abbrev Revision := Nat

namespace Revision

def start : Revision := 1

def label (revision : Revision) : String :=
  s!"R{revision}"

end Revision

/-- A stored value. Two handles share it exactly if they have the same identity. -/
structure Shared (α : Type) where
  identity : Nat
  value : α

inductive Origin where
  | derived
  | input
deriving DecidableEq, Repr

structure Entry (S : Signature) (query : S.Query) where
  /-- There is none while the first computation runs, or if it failed. -/
  value : Option (Shared (S.Value query))
  origin : Origin
  changedAt : Revision
  verifiedAt : Revision
  dependencies : List Nat
  diagnostics : List Diagnostic
  executions : Nat

structure Memo (S : Signature) where
  query : S.Query
  entry : Entry S query

def Memo.entryOf? {S : Signature} (memo : Memo S) (query : S.Query) : Option (Entry S query) :=
  if same : memo.query = query then some (same ▸ memo.entry) else none

structure CacheCounts where
  executions : Nat
  /-- Requests that a memo verified in the same revision answered. -/
  hits : Nat
  validations : Nat
  backdates : Nat
  evictions : Nat
deriving DecidableEq, Repr

structure Cache (S : Signature) where
  slots : Array (Option (Memo S))
  free : List Nat
  counts : CacheCounts

namespace Cache

variable {S : Signature}

def empty : Cache S :=
  ⟨#[], [], ⟨0, 0, 0, 0, 0⟩⟩

def size (cache : Cache S) : Nat :=
  cache.slots.size - cache.free.length

def memo? (cache : Cache S) (slot : Nat) : Option (Memo S) :=
  cache.slots[slot]?.join

def liveSlots (cache : Cache S) : List Nat :=
  (List.range cache.slots.size).filter fun slot => (cache.memo? slot).isSome

def entry? (cache : Cache S) (slot : Nat) (query : S.Query) : Option (Entry S query) :=
  (cache.memo? slot).bind (·.entryOf? query)

def find? (cache : Cache S) (query : S.Query) : Option (Nat × Entry S query) :=
  (List.range cache.slots.size).findSome? fun slot =>
    (cache.entry? slot query).map (slot, ·)

def put (cache : Cache S) (slot : Nat) (memo : Memo S) : Cache S :=
  { cache with slots := cache.slots.setIfInBounds slot (some memo) }

@[simp] theorem memo?_empty (slot : Nat) : (empty : Cache S).memo? slot = none := by
  simp [empty, memo?]

theorem memo?_put (cache : Cache S) (slot other : Nat) (memo : Memo S) :
    (cache.put slot memo).memo? other =
      if slot = other ∧ slot < cache.slots.size then some memo else cache.memo? other := by
  unfold put memo?
  by_cases same : slot = other
  · subst same
    by_cases inside : slot < cache.slots.size <;> simp [inside]
  · simp [same]

theorem mem_liveSlots {cache : Cache S} {slot : Nat} :
    slot ∈ cache.liveSlots ↔ (cache.memo? slot).isSome := by
  simp only [liveSlots, List.mem_filter, List.mem_range, and_iff_right_iff_imp]
  intro live
  by_cases inside : slot < cache.slots.size
  · exact inside
  · simp [memo?, Array.getElem?_eq_none (Nat.le_of_not_lt inside)] at live

def insert (cache : Cache S) (query : S.Query) (origin : Origin) (revision : Revision) :
    Nat × Cache S :=
  let memo : Memo S := ⟨query, none, origin, revision, revision, [], [], 0⟩
  match cache.free with
  | slot :: free => (slot, { cache with free }.put slot memo)
  | [] => (cache.slots.size, { cache with slots := cache.slots.push (some memo) })

def verify (cache : Cache S) (slot : Nat) (revision : Revision) : Cache S :=
  match cache.memo? slot with
  | some memo => cache.put slot ⟨memo.query, { memo.entry with verifiedAt := revision }⟩
  | none => cache

/-- Empties slots in the given order; the last one is the first to be used again. -/
def evict (cache : Cache S) (slots : List Nat) : Cache S :=
  { slots := slots.foldl (·.setIfInBounds · none) cache.slots
    free := slots.reverse ++ cache.free
    counts := { cache.counts with evictions := cache.counts.evictions + slots.length } }

def countHit (cache : Cache S) : Cache S :=
  { cache with counts := { cache.counts with hits := cache.counts.hits + 1 } }

def countValidation (cache : Cache S) : Cache S :=
  { cache with counts := { cache.counts with validations := cache.counts.validations + 1 } }

def countExecution (cache : Cache S) (isBackdated : Bool) : Cache S :=
  { cache with
    counts :=
      { cache.counts with
        executions := cache.counts.executions + 1
        backdates := cache.counts.backdates + if isBackdated then 1 else 0 } }

def dependencies (cache : Cache S) (slot : Nat) : List Nat :=
  ((cache.memo? slot).map (·.entry.dependencies)).getD []

/-- How many steps a walk over dependencies may still take at slots that it has not visited. -/
def workload (cache : Cache S) : List Nat → Nat
  | [] => 0
  | slot :: rest => (cache.dependencies slot).length + 1 + cache.workload rest

theorem workload_erase (cache : Cache S) {slot : Nat} {slots : List Nat} (member : slot ∈ slots) :
    cache.workload (slots.erase slot) + (cache.dependencies slot).length + 1 =
      cache.workload slots := by
  induction slots with
  | nil => simp at member
  | cons other rest ih =>
    by_cases same : other = slot
    · subst same
      simp only [List.erase_cons_head, workload]
      omega
    · have := ih ((List.mem_cons.mp member).resolve_left (Ne.symm same))
      rw [List.erase_cons_tail (by simpa using same), workload, workload]
      omega

inductive Delivery where
  | visit (slot : Nat)
  | deliver (slot : Nat)

/-- Diagnostics delivered by pending steps: those of the slots that a memo read come before its
own, and each unvisited slot is delivered once. -/
def deliveries (cache : Cache S) (unvisited : List Nat) :
    List Delivery → Except QueryError (List Diagnostic)
  | [] => .ok []
  | .visit slot :: pending =>
    if (cache.memo? slot).isNone then .error (.missingSlot slot)
    else if slot ∈ unvisited then
      cache.deliveries (unvisited.erase slot)
        ((cache.dependencies slot).map .visit ++ .deliver slot :: pending)
    else cache.deliveries unvisited pending
  | .deliver slot :: pending =>
    match cache.memo? slot with
    | none => .error (.missingSlot slot)
    | some memo => (cache.deliveries unvisited pending).map (memo.entry.diagnostics ++ ·)
termination_by pending => cache.workload unvisited + pending.length
decreasing_by
  · have := cache.workload_erase ‹slot ∈ unvisited›
    simp only [List.length_append, List.length_map, List.length_cons]
    omega
  · simp
  · simp

def diagnosticsBelow (cache : Cache S) (slot : Nat) : Except QueryError (List Diagnostic) :=
  cache.deliveries cache.liveSlots [.visit slot]

/-- The candidates that no dependency chain from the pending slots reaches. -/
def unreached (cache : Cache S) (candidates : List Nat) : List Nat → List Nat
  | [] => candidates
  | slot :: pending =>
    if slot ∈ candidates then
      cache.unreached (candidates.erase slot) (cache.dependencies slot ++ pending)
    else cache.unreached candidates pending
termination_by pending => cache.workload candidates + pending.length
decreasing_by
  · have := cache.workload_erase ‹slot ∈ candidates›
    simp only [List.length_append, List.length_cons]
    omega
  · simp

end Cache

end IncrementalFrontend
