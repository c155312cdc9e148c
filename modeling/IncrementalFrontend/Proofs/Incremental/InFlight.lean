import Mathlib.Data.List.TakeWhile
import IncrementalFrontend.Incremental.Context
import IncrementalFrontend.Proofs.Incremental.Changes

/-!
Contexts while queries are in flight. The queries in flight form a path, and their memos wait: none
of them is verified in the revision, so no request is answered from them.
-/
namespace IncrementalFrontend

variable {S : Signature} {rules : Rules S}

theorem Cache.WellFormed.map_query?_dropWhile {cache : Cache S} (sound : cache.WellFormed)
    {slot : Nat} {query : S.Query} (here : cache.query? slot = some query) {slots : List Nat}
    {queries : List S.Query} (assigned : slots.map cache.query? = queries.map some) :
    (slots.dropWhile (· ≠ slot)).map cache.query? = (queries.dropWhile (· ≠ query)).map some := by
  induction slots generalizing queries with
  | nil => cases queries <;> simp_all
  | cons first slots ih =>
    cases queries with
    | nil => simp at assigned
    | cons other queries =>
      simp only [List.map_cons, List.cons.injEq] at assigned
      by_cases same : first = slot
      · subst same
        obtain rfl : query = other := Option.some.inj (here.symm.trans assigned.1)
        simpa using assigned
      · have differ : other ≠ query := by
          rintro rfl
          exact same (sound.unique assigned.1 here)
        simpa [same, differ] using ih assigned.2

namespace Context

variable {account : Account rules} {path : List S.Query} {context before middle after : Context S}
  {slot : Nat} {query : S.Query}

theorem label_eq (here : context.cache.query? slot = some query) :
    context.label rules slot = rules.label query := by
  obtain ⟨entry, here⟩ := Cache.memo?_of_query? here
  simp [label, here]

theorem map_label {slots : List Nat} {queries : List S.Query}
    (assigned : slots.map context.cache.query? = queries.map some) :
    slots.map (context.label rules) = queries.map rules.label := by
  induction slots generalizing queries with
  | nil => cases queries <;> simp_all
  | cons slot slots ih =>
    cases queries with
    | nil => simp at assigned
    | cons query queries =>
      simp only [List.map_cons, List.cons.injEq] at assigned ⊢
      exact ⟨label_eq assigned.1, ih assigned.2⟩

def busy (context : Context S) : List Nat :=
  context.active.map (·.slot)

/-- The memos are as the account says, and the queries in flight are those of the path. -/
structure Sound (account : Account rules) (path : List S.Query) (context : Context S) : Prop where
  accounted : context.cache.Accounted account context.revision
  world : account.world context.world
  inFlight : context.busy.map context.cache.query? = path.map some
  waiting : ∀ slot ∈ context.busy, ∃ query entry, context.cache.memo? slot = some ⟨query, entry⟩ ∧
    entry.origin = .derived ∧ ¬ entry.IsCurrent context.revision

structure Grows (account : Account rules) (stack : List S.Query) (before after : Context S) :
    Prop where
  cache : before.cache.Grows account.exact before.revision before.busy after.cache
  changes : before.cache.Changes account before.revision stack before.nextIdentity after.cache
    after.nextIdentity
  revision : after.revision = before.revision
  busy : after.busy = before.busy
  sink : after.sink = before.sink
  handles : after.handles = before.handles

namespace Grows

variable {stack : List S.Query}

theorem refl (context : Context S) : context.Grows account stack context :=
  ⟨.refl _, .refl, rfl, rfl, rfl, rfl⟩

theorem trans (left : before.Grows account stack middle) (right : middle.Grows account stack after) :
    before.Grows account stack after where
  cache := by
    have later := right.cache
    rw [left.revision, left.busy] at later
    exact left.cache.trans later
  changes := by
    have later := right.changes
    rw [left.revision] at later
    exact left.changes.trans later
  revision := right.revision.trans left.revision
  busy := right.busy.trans left.busy
  sink := right.sink.trans left.sink
  handles := right.handles.trans left.handles

theorem within {outer : List S.Query} (suffix : outer <:+ stack)
    (grows : before.Grows account stack after) : before.Grows account outer after :=
  { grows with changes := grows.changes.within suffix }

/-- What a nested query changed, once it is no longer in flight. -/
theorem pop {phase : Phase} (grows : (context.pushFrame slot phase).Grows account stack after) :
    context.Grows account stack { after with active := context.active } where
  cache := grows.cache.mono fun _ member => List.mem_cons_of_mem _ member
  changes := grows.changes
  revision := grows.revision
  busy := rfl
  sink := grows.sink
  handles := grows.handles

end Grows

namespace Sound

theorem grow (sound : before.Sound account path) {other : Account rules} {stack : List S.Query}
    (grows : before.Grows other stack after)
    (accounted : after.cache.Accounted account after.revision) (world : account.world after.world) :
    after.Sound account path where
  accounted := accounted
  world := world
  inFlight := by
    rw [grows.busy]
    exact grows.cache.map_query? sound.inFlight
  waiting slot member := by
    rw [grows.busy] at member
    rw [grows.cache.busy slot member, grows.revision]
    exact sound.waiting slot member

/-- Counts say nothing about memos. -/
theorem recount (sound : context.Sound account path) (counts : CacheCounts) :
    ({ context with cache := { context.cache with counts } } : Context S).Sound account path where
  accounted := sound.accounted.recount counts
  world := sound.world
  inFlight := sound.inFlight
  waiting := sound.waiting

theorem among (sound : context.Sound account path) {journal : Journal rules}
    (within : account.journal.Within journal) : context.Sound (account.among journal) path where
  accounted := sound.accounted.among within
  world := sound.world
  inFlight := sound.inFlight
  waiting := sound.waiting

theorem mem_path (sound : context.Sound account path) (member : slot ∈ context.busy)
    (here : context.cache.query? slot = some query) : query ∈ path := by
  have mentioned : context.cache.query? slot ∈ context.busy.map context.cache.query? :=
    List.mem_map_of_mem member
  rw [sound.inFlight, here, List.mem_map] at mentioned
  obtain ⟨other, inside, same⟩ := mentioned
  exact Option.some.inj same ▸ inside

theorem push (sound : context.Sound account path) {entry : Entry S query}
    (here : context.cache.memo? slot = some ⟨query, entry⟩) (derived : entry.origin = .derived)
    (stale : ¬ entry.IsCurrent context.revision) (phase : Phase) :
    (context.pushFrame slot phase).Sound account (query :: path) where
  accounted := sound.accounted
  world := sound.world
  inFlight := congrArg₂ List.cons (Cache.query?_eq here) sound.inFlight
  waiting := List.forall_mem_cons.mpr ⟨⟨query, entry, here, derived, stale⟩, sound.waiting⟩

theorem pop (sound : after.Sound account (query :: path))
    (busy : after.busy = slot :: context.busy) :
    { after with active := context.active }.Sound account path where
  accounted := sound.accounted
  world := sound.world
  inFlight := by
    have inFlight := sound.inFlight
    rw [busy] at inFlight
    exact (List.cons.inj inFlight).2
  waiting := by
    have waiting := sound.waiting
    rw [busy] at waiting
    exact (List.forall_mem_cons.mp waiting).2

/-- A request for a query in flight closes a cycle. -/
theorem cycle?_eq (sound : context.Sound account path)
    (here : context.cache.query? slot = some query) :
    context.cycle? rules slot =
      if query ∈ path then some (rules.cycleLabels path query) else none := by
  have reversed : context.busy.reverse.map context.cache.query? = path.reverse.map some := by
    rw [List.map_reverse, sound.inFlight, ← List.map_reverse]
  have assigned := sound.accounted.wellFormed.map_query?_dropWhile here reversed
  rw [busy, ← List.map_reverse, List.dropWhile_map] at assigned
  have assigned : ((context.active.reverse.dropWhile (·.slot ≠ slot)).map (·.slot)).map
      context.cache.query? = (path.reverse.dropWhile (· ≠ query)).map some := assigned
  unfold cycle?
  by_cases inside : query ∈ path
  · have repeats : path.reverse.dropWhile (· ≠ query) ≠ [] := by
      intro none
      have := List.dropWhile_eq_nil_iff.mp none query (List.mem_reverse.mpr inside)
      simp at this
    rw [if_pos inside]
    split
    · rename_i none
      rw [none] at assigned
      exact absurd (List.map_eq_nil_iff.mp assigned.symm) repeats
    · refine congrArg some (map_label ?_)
      rw [List.map_append, List.map_append, assigned]
      exact congrArg₂ (· ++ ·) rfl (congrArg (fun one => [one]) here)
  · have none : path.reverse.dropWhile (· ≠ query) = [] := by
      refine List.dropWhile_eq_nil_iff.mpr fun other member => ?_
      have differ : other ≠ query := by
        rintro rfl
        exact inside (List.mem_reverse.mp member)
      simpa using differ
    rw [if_neg inside]
    rw [none, List.map_nil, List.map_eq_nil_iff, List.map_eq_nil_iff] at assigned
    rw [assigned]

theorem not_mem_of_cycle? (sound : context.Sound account path)
    (here : context.cache.query? slot = some query) (none : context.cycle? rules slot = none) :
    query ∉ path := by
  intro repeated
  rw [sound.cycle?_eq here, if_pos repeated] at none
  cases none

end Sound

end Context

end IncrementalFrontend
