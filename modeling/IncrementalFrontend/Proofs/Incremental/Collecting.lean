import IncrementalFrontend.Proofs.Incremental.Equations
import IncrementalFrontend.Proofs.Incremental.MemoGraph
import IncrementalFrontend.Proofs.Incremental.Stored

/-!
What a collection takes. The walk over dependencies finds all that the held memos need and nothing
else, so a collection takes exactly the stale memos that no held one needs. It frees their slots,
and leaves everything else as it is.
-/
namespace IncrementalFrontend

variable {S : Signature} {rules : Rules S} {drift : S.World → S.World → Prop}

namespace Cache

variable {cache : Cache S} {slot start : Nat} {pending : List Nat}

/-- The memo in one slot read the memo in another, itself or through the memos that it read. -/
def Needs (cache : Cache S) : Nat → Nat → Prop :=
  Relation.ReflTransGen fun reader dependency => dependency ∈ cache.dependencies reader

theorem dependencies_eq {query : S.Query} {entry : Entry S query}
    (here : cache.memo? slot = some ⟨query, entry⟩) :
    cache.dependencies slot = entry.dependencies := by
  simp [dependencies, here]

theorem mem_liveSlots_of_reads {dependency : Nat} (read : dependency ∈ cache.dependencies slot) :
    slot ∈ cache.liveSlots := by
  rw [mem_liveSlots]
  cases here : cache.memo? slot with
  | none => simp [dependencies, here] at read
  | some memo => rfl

/-- A walk from the pending slots passes every slot that one of them needs. -/
theorem Needs.not_mem_unreached (needs : cache.Needs start slot) (begins : start ∈ pending) :
    slot ∉ cache.unreached cache.liveSlots pending := by
  obtain ⟨visited, closed⟩ :=
    unreached_closed cache cache.liveSlots pending (nodup_liveSlots cache)
  induction needs with
  | refl => exact visited start begins
  | tail _ read ih => exact closed _ (mem_liveSlots_of_reads read) ih _ read

/-- A walk from the pending slots passes no other slot. -/
theorem mem_unreached_of_not_needs {candidates : List Nat} (member : slot ∈ candidates)
    (unneeded : ∀ start ∈ pending, ¬ cache.Needs start slot) :
    slot ∈ cache.unreached candidates pending := by
  fun_induction unreached cache candidates pending with
  | case1 candidates => exact member
  | case2 candidates visited pending here ih =>
    have differ : slot ≠ visited := by
      rintro rfl
      exact unneeded slot List.mem_cons_self .refl
    refine ih ((List.mem_erase_of_ne differ).mpr member) fun start begins needs => ?_
    obtain read | later := List.mem_append.mp begins
    · exact unneeded visited List.mem_cons_self (needs.head read)
    · exact unneeded start (List.mem_cons_of_mem _ later) needs
  | case3 candidates visited pending absent ih =>
    exact ih member fun start later => unneeded start (List.mem_cons_of_mem _ later)

theorem mem_unreached_iff : slot ∈ cache.unreached cache.liveSlots pending ↔
    slot ∈ cache.liveSlots ∧ ∀ start ∈ pending, ¬ cache.Needs start slot := by
  constructor
  · intro unreached
    exact ⟨unreached_subset _ _ _ _ unreached,
      fun start begins needs => needs.not_mem_unreached begins unreached⟩
  · rintro ⟨live, unneeded⟩
    exact mem_unreached_of_not_needs live unneeded

end Cache

def Invoice.holding : Context Invoice.signature :=
  { Invoice.resumed with handles := [2] }

namespace Context

variable {context after : Context S} {slot : Nat} {query : S.Query} {entry : Entry S query}

def IsHeld (rules : Rules S) (context : Context S) (slot : Nat) : Prop :=
  ∃ query entry shared, context.cache.memo? slot = some ⟨query, entry⟩ ∧
    entry.value = some shared ∧ context.Refers rules shared.identity

def IsPinned (rules : Rules S) (context : Context S) (slot : Nat) : Prop :=
  ∃ holder, context.IsHeld rules holder ∧ context.cache.Needs holder slot

theorem isReferenced_iff {identity : Nat} : context.isReferenced rules identity ↔
    ∃ query, context.cache.Knows query ∧ identity ∈ rules.references query := by
  constructor
  · intro referenced
    obtain ⟨slot, -, mentions⟩ := List.any_eq_true.mp referenced
    obtain ⟨⟨query, entry⟩, here, mentioned⟩ := Option.any_eq_true _ _ |>.mp mentions
    exact ⟨query, ⟨slot, Cache.query?_eq here⟩, of_decide_eq_true mentioned⟩
  · rintro ⟨query, known, mentioned⟩
    exact isReferenced_of_knows known mentioned

theorem mem_slotsWith_isHeld :
    slot ∈ context.slotsWith (context.isHeld rules) ↔ context.IsHeld rules slot := by
  rw [mem_slotsWith]
  constructor
  · rintro ⟨⟨query, entry⟩, here, held⟩
    obtain ⟨shared, value, refers⟩ := Option.any_eq_true _ _ |>.mp held
    rw [Bool.or_eq_true, decide_eq_true_eq, isReferenced_iff] at refers
    exact ⟨query, entry, shared, here, value, refers⟩
  · rintro ⟨query, entry, shared, here, value, refers⟩
    refine ⟨_, here, Option.any_eq_true _ _ |>.mpr ⟨shared, value, ?_⟩⟩
    rw [Bool.or_eq_true, decide_eq_true_eq, isReferenced_iff]
    exact refers

/-- A memo goes if it was computed, is not up to date, and is not pinned. -/
theorem mem_collectable_iff : slot ∈ context.collectable rules ↔
    ∃ query entry, context.cache.memo? slot = some ⟨query, entry⟩ ∧ entry.origin = .derived ∧
      ¬ entry.IsCurrent context.revision ∧ ¬ context.IsPinned rules slot := by
  have unneeded_iff : slot ∈ context.cache.unreached context.cache.liveSlots
      (context.slotsWith (context.isHeld rules)) ↔
        slot ∈ context.cache.liveSlots ∧ ¬ context.IsPinned rules slot := by
    rw [Cache.mem_unreached_iff]
    simp only [mem_slotsWith_isHeld, IsPinned, not_exists, not_and]
  unfold collectable
  rw [List.mem_filter, decide_eq_true_eq, unneeded_iff, mem_slotsWith]
  constructor
  · rintro ⟨⟨⟨query, entry⟩, here, stale⟩, -, unpinned⟩
    obtain ⟨derived, old⟩ := isStale_iff.mp stale
    exact ⟨query, entry, here, derived, old, unpinned⟩
  · rintro ⟨query, entry, here, derived, old, unpinned⟩
    exact ⟨⟨_, here, isStale_iff.mpr ⟨derived, old⟩⟩, Cache.mem_liveSlots.mpr (by simp [here]),
      unpinned⟩

theorem pairwise_collectable : (context.collectable rules).Pairwise (· < ·) :=
  ((List.pairwise_lt_range.filter _).filter _).filter _

structure Collects (rules : Rules S) (context : Context S) (freed : List Nat) (count : Nat)
    (after : Context S) : Prop where
  ascending : freed.Pairwise (· < ·)
  mem_iff : ∀ slot, slot ∈ freed ↔
    ∃ query entry, context.cache.memo? slot = some ⟨query, entry⟩ ∧ entry.origin = .derived ∧
      (entry.value = none ∨ entry.verifiedAt ≠ context.revision) ∧ ¬ context.IsPinned rules slot
  count_eq : count = freed.length
  counts : after.cache.counts =
    { context.cache.counts with evictions := context.cache.counts.evictions + count }
  kept : ∀ slot, slot ∉ freed → after.cache.memo? slot = context.cache.memo? slot
  found : ∀ slot query entry, slot ∉ freed → context.cache.memo? slot = some ⟨query, entry⟩ →
    after.cache.find? query = some (slot, entry)
  emptied : ∀ slot ∈ freed, after.cache.memo? slot = none
  absent : ∀ slot ∈ freed, ∀ query entry, context.cache.memo? slot = some ⟨query, entry⟩ →
    after.cache.find? query = none
  free : after.cache.free = freed.reverse ++ context.cache.free
  nodup_free : after.cache.free.Nodup
  slots : after.cache.slots.size = context.cache.slots.size
  rest : after = { context with cache := after.cache }

theorem not_isCurrent_iff {revision : Revision} : ¬ entry.IsCurrent revision ↔
    entry.value = none ∨ entry.verifiedAt ≠ revision := by
  unfold Entry.IsCurrent
  cases entry.value <;> simp

/-- Whatever happened to a session before, a collection takes exactly the computed memos that have
no value or were not verified in the revision, and that no held memo needs. -/
theorem Reachable.collectGarbage_exact (reachable : context.Reachable rules drift) :
    ∃ freed, context.Collects rules freed (context.collectGarbage rules).1
      (context.collectGarbage rules).2 := by
  have sound := reachable.sound_plain
  have sound' : (context.collectGarbage rules).2.Sound (.plain rules) [] := sound.collectGarbage
  have wellFormed := sound.accounted.wellFormed
  have wellFormed' := sound'.accounted.wellFormed
  refine ⟨context.collectable rules,
    { ascending := pairwise_collectable
      mem_iff := fun slot => ?_
      count_eq := rfl
      counts := rfl
      kept := fun slot stays => Cache.memo?_evict_of_not_mem stays
      found := fun slot query entry stays here =>
        wellFormed'.find?_eq ((Cache.memo?_evict_of_not_mem stays).trans here)
      emptied := fun slot goes => ?_
      absent := fun slot goes query entry here => ?_
      free := rfl
      nodup_free := wellFormed'.nodup_free
      slots := Cache.size_evict _ _
      rest := rfl }⟩
  · rw [mem_collectable_iff]
    simp only [not_isCurrent_iff]
  · exact (Cache.memo?_evict _ _ _).trans (if_pos goes)
  · refine Cache.find?_eq_none fun place there => ?_
    -- The query has no other slot, and this one is empty.
    obtain ⟨known, there⟩ := Cache.memo?_of_query? there
    obtain ⟨stays, before⟩ := Cache.memo?_of_evict there
    obtain rfl := wellFormed.unique (Cache.query?_eq here) (Cache.query?_eq before)
    exact stays goes

/-- The old total stays, and so does the day that it read; the query that reads itself has no value
and goes. -/
theorem Reachable.collectGarbage_exact_invoice :
    let after := (Invoice.holding.collectGarbage Invoice.rules).2
    (∃ freed, Invoice.holding.Collects Invoice.rules freed 1 after) ∧
      [0, 1, 2, 3].map (fun slot => (Invoice.holding.cache.query? slot).map Invoice.rules.label) =
        [some "price", some "total", some "day", some "loop"] ∧
      [0, 1, 2, 3].map (fun slot => (after.cache.query? slot).map Invoice.rules.label) =
        [some "price", some "total", some "day", none] := by
  obtain ⟨world, collects, leads⟩ := Invoice.reachable_resumed
  have reachable : Invoice.holding.Reachable Invoice.rules (SameEnvironment id) :=
    ⟨world, collects, leads.tail (.hold _ _)⟩
  have count : (Invoice.holding.collectGarbage Invoice.rules).1 = 1 := by decide +kernel
  exact ⟨count ▸ Reachable.collectGarbage_exact reachable, by decide +kernel, by decide +kernel⟩

end Context

end IncrementalFrontend
