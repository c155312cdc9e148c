import IncrementalFrontend.Incremental.Revise
import IncrementalFrontend.Proofs.Incremental.InFlight

/-!
Changes between requests. A collection takes only memos that nothing left behind needs; in a new
revision all memos are old, except for an input that was set.
-/
namespace IncrementalFrontend

variable {S : Signature} {rules : Rules S}

structure Entry.IsSet {query : S.Query} (entry : Entry S query) (revision : Revision) : Prop where
  origin : entry.origin = .input
  value : entry.value.isSome
  changedAt : entry.changedAt = revision
  verifiedAt : entry.verifiedAt = revision
  dependencies : entry.dependencies = []
  diagnostics : entry.diagnostics = []

namespace Cache

variable {account : Account rules} {revision : Revision} {cache : Cache S} {slots : List Nat}

theorem memo?_of_evict {place : Nat} {memo : Memo S}
    (here : (cache.evict slots).memo? place = some memo) :
    place ∉ slots ∧ cache.memo? place = some memo := by
  rw [memo?_evict] at here
  split at here
  · cases here
  · exact ⟨‹_›, here⟩

theorem memo?_evict_of_not_mem {place : Nat} (stays : place ∉ slots) :
    (cache.evict slots).memo? place = cache.memo? place := by
  rw [memo?_evict, if_neg stays]

section Evict

variable (accounted : cache.Accounted account revision) (nodup : slots.Nodup)
  (derived : ∀ slot ∈ slots, ∃ query entry, cache.memo? slot = some ⟨query, entry⟩ ∧
    entry.origin = .derived)

include accounted nodup derived

theorem Accounted.wellFormed_evict : (cache.evict slots).WellFormed := by
  refine accounted.wellFormed.evict nodup fun slot member => ?_
  obtain ⟨_, _, here, -⟩ := derived slot member
  simp [here]

theorem Accounted.input?_evict : (cache.evict slots).input? = cache.input? := by
  funext query
  refine Option.ext fun value => ?_
  rw [input?_eq_some_iff accounted.wellFormed,
    input?_eq_some_iff (accounted.wellFormed_evict nodup derived)]
  constructor
  · rintro ⟨place, entry, here, isInput, known⟩
    exact ⟨place, entry, (memo?_of_evict here).2, isInput, known⟩
  · rintro ⟨place, entry, here, isInput, known⟩
    refine ⟨place, entry, ?_, isInput, known⟩
    rw [memo?_evict_of_not_mem, here]
    intro member
    obtain ⟨_, _, found, derived⟩ := derived place member
    rw [here] at found
    cases found
    rw [isInput] at derived
    cases derived

/-- Memos may go if no memo that stays depends on them. -/
theorem Accounted.evict
    (closed : ∀ {slot query entry}, slot ∉ slots → cache.memo? slot = some ⟨query, entry⟩ →
      ∀ dependency ∈ entry.dependencies, dependency ∉ slots) :
    (cache.evict slots).Accounted account revision where
  wellFormed := accounted.wellFormed_evict nodup derived
  changedAt_le here := accounted.changedAt_le (memo?_of_evict here).2
  verifiedAt_le here := accounted.verifiedAt_le (memo?_of_evict here).2
  ofInput here := accounted.ofInput (memo?_of_evict here).2
  ofNone here := accounted.ofNone (memo?_of_evict here).2
  dependency here dependency read := by
    obtain ⟨stays, here⟩ := memo?_of_evict here
    obtain ⟨other, known, there, rest⟩ := accounted.dependency here dependency read
    refine ⟨other, known, ?_, rest⟩
    rw [memo?_evict_of_not_mem (closed stays here dependency read), there]
  recorded {slot query entry shared} here isDerived value := by
    obtain ⟨stays, here⟩ := memo?_of_evict here
    obtain ⟨replies, readings, records⟩ := accounted.recorded here isDerived value
    refine ⟨replies, readings, records.of_cache ?_ ?_⟩
    · intro dependency read
      unfold query?
      rw [memo?_evict_of_not_mem (closed stays here dependency read)]
    · intro exact other known member place entry' shared' there
      exact records.supports exact other known member place entry' shared' (memo?_of_evict there).2
  current here := accounted.current (memo?_of_evict here).2
  input := by
    rw [accounted.input?_evict nodup derived]
    exact accounted.input
  free := by
    rw [accounted.input?_evict nodup derived]
    exact accounted.free

end Evict

/-- In a later revision the memos are the same, except for inputs that were set in it. -/
structure Later (revision : Revision) (before after : Cache S) : Prop where
  wellFormed : after.WellFormed
  kept : ∀ {slot query entry}, before.memo? slot = some ⟨query, entry⟩ →
    ∃ entry', after.memo? slot = some ⟨query, entry'⟩ ∧
      (entry' = entry ∨ entry'.IsSet revision)
  origin : ∀ {slot query entry}, after.memo? slot = some ⟨query, entry⟩ →
    before.memo? slot = some ⟨query, entry⟩ ∨ entry.IsSet revision

theorem Later.refl (sound : cache.WellFormed) (revision : Revision) : cache.Later revision cache :=
  ⟨sound, fun here => ⟨_, here, .inl rfl⟩, .inl⟩

theorem Later.query? {before after : Cache S} (later : before.Later revision after) {place : Nat}
    {query : S.Query} (here : before.query? place = some query) :
    after.query? place = some query := by
  obtain ⟨entry, here⟩ := memo?_of_query? here
  obtain ⟨entry', there, -⟩ := later.kept here
  exact query?_eq there

/-- In a new revision no memo is verified yet but the inputs that were set. -/
theorem Accounted.later {other : Account rules} {next : Revision} {after : Cache S}
    (accounted : cache.Accounted account revision) (newer : revision < next)
    (later : cache.Later next after) (past : ∀ {replies}, account.past replies → other.past replies)
    (within : account.journal.Within other.journal) (exact : other.exact → account.exact)
    (input : ∀ {query value}, after.input? query = some value → other.answer query value)
    (free : ∀ {query}, after.input? query = none → other.free query) :
    after.Accounted other next where
  wellFormed := later.wellFormed
  changedAt_le here := by
    obtain here | isSet := later.origin here
    · exact accounted.changedAt_le here
    · exact Nat.le_of_eq (isSet.changedAt.trans isSet.verifiedAt.symm)
  verifiedAt_le here := by
    obtain here | isSet := later.origin here
    · exact Nat.le_trans (accounted.verifiedAt_le here) (Nat.le_of_lt newer)
    · exact Nat.le_of_eq isSet.verifiedAt
  ofInput here isInput := by
    obtain here | isSet := later.origin here
    · exact accounted.ofInput here isInput
    · exact ⟨isSet.value, isSet.dependencies, isSet.diagnostics⟩
  ofNone here none := by
    obtain here | isSet := later.origin here
    · exact accounted.ofNone here none
    · exact isSet.dependencies
  dependency here dependency read := by
    obtain here | isSet := later.origin here
    · have older := accounted.verifiedAt_le here
      obtain ⟨third, known, there, hasValue, order⟩ := accounted.dependency here dependency read
      obtain ⟨known', found, rfl | isSet⟩ := later.kept there
      · exact ⟨third, known', found, hasValue, order⟩
      · refine ⟨third, known', found, isSet.value, ?_⟩
        rw [isSet.verifiedAt]
        exact Nat.le_trans older (Nat.le_of_lt newer)
    · simp [isSet.dependencies] at read
  recorded {slot query entry shared} here derived value := by
    obtain here | isSet := later.origin here
    · have older := Nat.lt_of_le_of_lt (accounted.verifiedAt_le here) newer
      obtain ⟨replies, readings, records⟩ := accounted.recorded here derived value
      refine ⟨replies, readings, past records.past, records.executed.mono within, records.takes,
        ?_, ?_, ?_⟩
      · rw [← records.dependencies]
        refine List.map_congr_left fun dependency read => ?_
        obtain ⟨third, known, there, -⟩ := accounted.dependency here dependency read
        exact (later.query? (query?_eq there)).trans (query?_eq there).symm
      · intro now
        exact absurd now (Nat.ne_of_lt older)
      · intro isExact third known member place entry' shared' there value' unchanged
        obtain there | isSet := later.origin there
        · exact records.supports (exact isExact) third known member place entry' shared' there
            value' unchanged
        · rw [isSet.changedAt] at unchanged
          exact absurd unchanged (Nat.not_le.mpr older)
    · rw [isSet.origin] at derived
      cases derived
  current {slot query entry shared} here value now := by
    obtain here | isSet := later.origin here
    · exact absurd now (Nat.ne_of_lt (Nat.lt_of_le_of_lt (accounted.verifiedAt_le here) newer))
    · refine input ((input?_eq_some_iff later.wellFormed).mpr ?_)
      exact ⟨slot, entry, here, isSet.origin, by simp [value]⟩
  input := input
  free := free

structure Sets (revision : Revision) (query : S.Query) (value : S.Value query) (slot : Nat)
    (entry : Entry S query) (before after : Cache S) : Prop where
  wellFormed : after.WellFormed
  isSet : entry.IsSet revision
  value : entry.value.map (·.value) = some value
  assigned : before.query? slot = some query ∨
    before.memo? slot = none ∧ ∀ place, before.query? place ≠ some query
  memo? : ∀ place, after.memo? place =
    if place = slot then some ⟨query, entry⟩ else before.memo? place

namespace Sets

variable {query : S.Query} {value : S.Value query} {slot : Nat} {entry : Entry S query}
  {before after : Cache S}

theorem later (sets : Sets revision query value slot entry before after) :
    before.Later revision after where
  wellFormed := sets.wellFormed
  kept {place other known} here := by
    rw [sets.memo?]
    split
    · rename_i same
      subst same
      obtain assigned | ⟨empty, -⟩ := sets.assigned
      · rw [query?_eq here] at assigned
        cases assigned
        exact ⟨entry, rfl, .inr sets.isSet⟩
      · rw [here] at empty
        cases empty
    · exact ⟨known, here, .inl rfl⟩
  origin here := by
    rw [sets.memo?] at here
    split at here
    · cases here
      exact .inr sets.isSet
    · exact .inl here

theorem input?_self (sets : Sets revision query value slot entry before after) :
    after.input? query = some value := by
  refine (input?_eq_some_iff sets.wellFormed).mpr ⟨slot, entry, ?_, sets.isSet.origin, sets.value⟩
  rw [sets.memo?, if_pos rfl]

theorem input?_ne (sets : Sets revision query value slot entry before after)
    (sound : before.WellFormed) {other : S.Query} (differ : other ≠ query) :
    after.input? other = before.input? other := by
  refine Option.ext fun known => ?_
  rw [input?_eq_some_iff sound, input?_eq_some_iff sets.wellFormed]
  constructor
  · rintro ⟨place, found, here, rest⟩
    rw [sets.memo?] at here
    split at here
    · cases here
      exact absurd rfl differ
    · exact ⟨place, found, here, rest⟩
  · rintro ⟨place, found, here, rest⟩
    refine ⟨place, found, ?_, rest⟩
    rw [sets.memo?, if_neg, here]
    rintro rfl
    obtain assigned | ⟨empty, -⟩ := sets.assigned
    · rw [query?_eq here] at assigned
      exact differ (Option.some.inj assigned)
    · rw [here] at empty
      cases empty

end Sets

end Cache

namespace Context

variable {account : Account rules} {path : List S.Query} {context : Context S}

theorem isStale_iff {query : S.Query} {entry : Entry S query} :
    context.isStale ⟨query, entry⟩ ↔
      entry.origin = .derived ∧ ¬ entry.IsCurrent context.revision := by
  unfold isStale Entry.IsCurrent
  cases entry.value <;> simp

theorem mem_slotsWith {property : Memo S → Bool} {slot : Nat} :
    slot ∈ context.slotsWith property ↔
      ∃ memo, context.cache.memo? slot = some memo ∧ property memo := by
  unfold slotsWith
  rw [List.mem_filter, Cache.mem_liveSlots]
  cases context.cache.memo? slot <;> simp

theorem derived_of_mem_collectable {slot : Nat} (member : slot ∈ context.collectable rules) :
    ∃ query entry, context.cache.memo? slot = some ⟨query, entry⟩ ∧ entry.origin = .derived ∧
      ¬ entry.IsCurrent context.revision := by
  obtain ⟨⟨query, entry⟩, here, stale⟩ := mem_slotsWith.mp (List.mem_filter.mp member).1
  exact ⟨query, entry, here, isStale_iff.mp stale⟩

/-- A memo that stays depends on no memo that goes: it is needed itself, or was verified in the
revision together with its dependencies. -/
theorem collectable_closed (accounted : context.cache.Accounted account context.revision)
    {slot : Nat} {query : S.Query} {entry : Entry S query}
    (stays : slot ∉ context.collectable rules)
    (here : context.cache.memo? slot = some ⟨query, entry⟩)
    {dependency : Nat} (read : dependency ∈ entry.dependencies) :
    dependency ∉ context.collectable rules := by
  intro goes
  by_cases stale : context.isStale ⟨query, entry⟩
  -- A stale memo stays only if a held one needs it, and then its dependencies are needed as well.
  · have needed : slot ∉ context.cache.unreached context.cache.liveSlots
        (context.slotsWith (context.isHeld rules)) := by
      intro unneeded
      refine stays (List.mem_filter.mpr ⟨mem_slotsWith.mpr ⟨_, here, stale⟩, ?_⟩)
      exact decide_eq_true unneeded
    have live : slot ∈ context.cache.liveSlots := by simp [Cache.mem_liveSlots, here]
    have needed' := (Cache.unreached_closed _ _ (context.slotsWith (context.isHeld rules))
      (Cache.nodup_liveSlots context.cache)).2 slot live needed dependency (by
        simpa [Cache.dependencies, here] using read)
    exact needed' (of_decide_eq_true (List.mem_filter.mp goes).2)
  · obtain ⟨other, known, there, derived, old⟩ := derived_of_mem_collectable goes
    cases origin : entry.origin with
    | input =>
      obtain ⟨-, dependencies, -⟩ := accounted.ofInput here origin
      simp [dependencies] at read
    | derived =>
      have current : entry.IsCurrent context.revision := by
        by_contra old
        exact stale (isStale_iff.mpr ⟨origin, old⟩)
      exact old (accounted.dependency_isCurrent here current.2 read there)

theorem accounted_collectGarbage (accounted : context.cache.Accounted account context.revision) :
    (context.collectGarbage rules).2.cache.Accounted account context.revision ∧
      (context.collectGarbage rules).2.cache.input? = context.cache.input? := by
  have nodup : (context.collectable rules).Nodup :=
    ((Cache.nodup_liveSlots context.cache).filter _).filter _
  have derived : ∀ slot ∈ context.collectable rules, ∃ query entry,
      context.cache.memo? slot = some ⟨query, entry⟩ ∧ entry.origin = .derived := by
    intro slot member
    obtain ⟨query, entry, here, derived, -⟩ := derived_of_mem_collectable member
    exact ⟨query, entry, here, derived⟩
  exact ⟨accounted.evict nodup derived fun stays here _ read =>
    collectable_closed accounted stays here read, accounted.input?_evict nodup derived⟩

def collected (rules : Rules S) (context : Context S) : Context S :=
  if context.collectsOnAdvance then (context.collectGarbage rules).2 else context

theorem setInput_of_unchanged {query : S.Query} {value : S.Value query} {revision : Revision}
    (known : context.unchangedInput? rules query value = some revision) :
    (context.setInput rules query value).2 = context := by
  simp [setInput, known]

theorem setInput_of_changed {query : S.Query} {value : S.Value query}
    (changed : context.unchangedInput? rules query value = none) :
    (context.setInput rules query value).2 = (context.advance rules).storeInput query value := by
  simp [setInput, changed]

theorem sets_storeInput (context : Context S) (sound : context.cache.WellFormed) (query : S.Query)
    (value : S.Value query) :
    ∃ slot entry, Cache.Sets context.revision query value slot entry context.cache
        (context.storeInput query value).cache ∧
      entry.value = some ⟨context.nextIdentity, value⟩ := by
  let entry (executions : Nat) : Entry S query :=
    ⟨some ⟨context.nextIdentity, value⟩, .input, context.revision, context.revision, [], [],
      executions⟩
  have isSet (executions : Nat) : (entry executions).IsSet context.revision :=
    ⟨rfl, rfl, rfl, rfl, rfl, rfl⟩
  unfold storeInput
  cases found : context.cache.find? query with
  | some result =>
    obtain ⟨slot, old⟩ := result
    have here := Cache.memo?_of_find? found
    exact ⟨slot, entry _, ⟨sound.put here rfl, isSet _, rfl, .inl (Cache.query?_eq here),
      Cache.memo?_put_of_live here⟩, rfl⟩
  | none =>
    have absent := Cache.query?_ne_of_find? found
    let inserted := context.cache.insert query .input context.revision
    have here : inserted.2.memo? inserted.1 =
        some (Cache.newMemo query .input context.revision) := sound.memo?_insert_self ..
    let stored := inserted.2
    let executions := ((stored.entry? inserted.1 query).map (·.executions)).getD 0
    refine ⟨inserted.1, entry executions, ⟨(sound.insert absent .input _).put here rfl, isSet _, rfl,
      .inr ⟨sound.insert_slot query .input _, absent⟩, fun place => ?_⟩, rfl⟩
    refine (Cache.memo?_put_of_live here place).trans ?_
    rw [sound.memo?_insert]
    split <;> rfl

end Context

end IncrementalFrontend
