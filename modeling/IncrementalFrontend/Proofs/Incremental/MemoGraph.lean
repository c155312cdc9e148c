import IncrementalFrontend.Proofs.Incremental.FreshSession

/-!
The graph of memos never dangles. Whatever happens to a session, a slot that a memo depends on holds
the query that was read, with a value; inputs stay in their slots.
-/
namespace IncrementalFrontend

variable {S : Signature} {rules : Rules S} {drift : S.World → S.World → Prop}

def Cache.HoldsInput (cache : Cache S) (slot : Nat) (query : S.Query) : Prop :=
  ∃ entry, cache.memo? slot = some ⟨query, entry⟩ ∧ entry.origin = .input

namespace Context

variable {context after : Context S} {slot : Nat} {query : S.Query}

structure Linked (rules : Rules S) (drift : S.World → S.World → Prop) (context : Context S) :
    Prop where
  dependency : ∀ {slot query entry}, context.cache.memo? slot = some ⟨query, entry⟩ →
    ∀ dependency ∈ entry.dependencies, ∃ other known,
      context.cache.memo? dependency = some ⟨other, known⟩ ∧ known.value.isSome ∧
        entry.verifiedAt ≤ known.verifiedAt
  executed : ∀ {slot query entry shared}, context.cache.memo? slot = some ⟨query, entry⟩ →
    entry.origin = .derived → entry.value = some shared → ∃ readings,
      (context.history rules drift).Executed slot query entry.executions readings entry.diagnostics
        shared ∧
        entry.dependencies.map context.cache.query? = (Reading.firstQueries readings).map some ∧
        entry.dependencies.Nodup
  unset : ∀ {slot query entry}, context.cache.memo? slot = some ⟨query, entry⟩ →
    entry.value = none → entry.dependencies = []
  revisions : ∀ {slot query entry}, context.cache.memo? slot = some ⟨query, entry⟩ →
    entry.changedAt ≤ entry.verifiedAt ∧ entry.verifiedAt ≤ context.revision
  input : ∀ {slot query entry}, context.cache.memo? slot = some ⟨query, entry⟩ →
    entry.origin = .input → entry.dependencies = []

theorem Reachable.linked (reachable : context.Reachable rules drift) :
    context.Linked rules drift := by
  obtain ⟨now, sound⟩ := reachable.follows (.plain rules drift)
  have accounted := sound.accounted
  refine
    { dependency := accounted.dependency, executed := ?_, unset := accounted.ofNone
      revisions := fun here => ⟨accounted.changedAt_le here, accounted.verifiedAt_le here⟩
      input := fun here isInput => (accounted.ofInput here isInput).2.1 }
  intro slot query entry shared here derived value
  obtain ⟨replies, readings, records⟩ := accounted.recorded here derived value
  refine ⟨readings, records.executed, records.dependencies, ?_⟩
  refine List.Nodup.of_map context.cache.query? ?_
  rw [records.dependencies]
  exact (nodup_eraseDups _).map fun _ _ => Option.some.inj

theorem holdsInput_collectGarbage (holds : context.cache.HoldsInput slot query) :
    (context.collectGarbage rules).2.cache.HoldsInput slot query := by
  obtain ⟨entry, here, isInput⟩ := holds
  refine ⟨entry, ?_, isInput⟩
  refine (Cache.memo?_evict_of_not_mem fun member => ?_).trans here
  obtain ⟨other, known, there, derived, -⟩ := derived_of_mem_collectable member
  rw [here] at there
  cases there
  rw [isInput] at derived
  cases derived

theorem holdsInput_collected (holds : context.cache.HoldsInput slot query) :
    (context.collected rules).cache.HoldsInput slot query := by
  unfold collected
  split
  · exact holdsInput_collectGarbage holds
  · exact holds

theorem Reachable.sound_plain (reachable : context.Reachable rules drift) :
    context.Sound (.plain rules) [] := by
  obtain ⟨now, sound⟩ := reachable.follows (.plain rules drift)
  exact sound.among fun _ _ _ _ => trivial

/-- Nothing takes an input out of its slot. -/
theorem Step.holdsInput (step : Step rules drift context after)
    (sound : context.Sound (.plain rules) []) (holds : context.cache.HoldsInput slot query) :
    after.cache.HoldsInput slot query := by
  cases step with
  | request ran =>
    obtain ⟨entry, here, isInput⟩ := holds
    obtain ⟨entry', there, grows⟩ := ((meets_request sound trivial).2 _ _ ran).cache.memo here
    exact ⟨entry', there, grows.origin.trans isInput⟩
  | setInput other value world unchanged =>
    unfold Context.setInput
    cases context.unchangedInput? rules other value with
    | some revision => exact holds
    | none =>
      obtain ⟨collected, -⟩ := sound.collected
      obtain ⟨place, entry, sets, -⟩ :=
        sets_storeInput (context.advance rules) collected.accounted.wellFormed other value
      have stays : (context.collected rules).cache.HoldsInput slot query :=
        holdsInput_collected holds
      obtain ⟨known, here, isInput⟩ := stays
      obtain ⟨entry', there, rfl | isSet⟩ := sets.later.kept here
      · exact ⟨entry', there, isInput⟩
      · exact ⟨entry', there, isSet.origin⟩
  | advance world => exact holdsInput_collected holds
  | collectGarbage => exact holdsInput_collectGarbage holds
  | hold handles => exact holds
  | report diagnostic =>
    unfold Context.report
    split <;> exact holds
  | takeDiagnostics => exact holds
  | drift world drifts => exact holds

/-- Setting an input finds or makes a slot for it, also after a collection. -/
theorem Sound.holdsInput_setInput (sound : context.Sound (.plain rules) []) (query : S.Query)
    (value : S.Value query) :
    ∃ slot, (context.setInput rules query value).2.cache.HoldsInput slot query := by
  unfold Context.setInput
  cases known : context.unchangedInput? rules query value with
  | some revision =>
    obtain ⟨old, stored, -⟩ := input?_of_unchangedInput? known
    obtain ⟨slot, entry, here, isInput, -⟩ :=
      (Cache.input?_eq_some_iff sound.accounted.wellFormed).mp stored
    exact ⟨slot, entry, here, isInput⟩
  | none =>
    obtain ⟨collected, -⟩ := sound.collected
    obtain ⟨slot, entry, sets, -⟩ :=
      sets_storeInput (context.advance rules) collected.accounted.wellFormed query value
    refine ⟨slot, entry, ?_, sets.isSet.origin⟩
    exact (sets.memo? slot).trans (if_pos rfl)

/-- Memos of a session are linked at all times, inputs get slots and keep them, and no request
misses a slot unless a computation says so itself. -/
theorem Reachable.memos_linked (reachable : context.Reachable rules drift) :
    context.Linked rules drift ∧
      (∀ slot query, context.cache.HoldsInput slot query → ∀ later,
        Leads rules drift context later → later.cache.HoldsInput slot query) ∧
      (∀ query value, ∃ slot, (context.setInput rules query value).2.cache.HoldsInput slot query) ∧
      ((∀ query, (rules.compute query).Raises fun error => ∀ slot, error ≠ .missingSlot slot) →
        ∀ depth query error after,
          Run.request rules depth query context = some (.error error, after) →
            ∀ slot, error ≠ .missingSlot slot) := by
  refine ⟨reachable.linked, ?_, reachable.sound_plain.holdsInput_setInput, ?_⟩
  · intro slot query holds later leads
    induction leads with
    | refl => exact holds
    | tail leads step ih =>
      obtain ⟨world, collects, start⟩ := reachable
      have reached : Reachable rules drift _ := ⟨world, collects, start.trans leads⟩
      exact step.holdsInput reached.sound_plain ih
  · intro raises depth query error after ran
    have answered := (meets_request reachable.sound_plain trivial).2 _ _ ran
    exact (answered.error error rfl).1.failure _ raises fun _ _ => nofun

theorem Reachable.memos_linked_invoice : ∃ shared after,
    Invoice.resumed.Gets Invoice.rules Invoice.Item.total (.ok shared) after ∧
      after.Linked Invoice.rules (SameEnvironment id) := by
  obtain ⟨shared, after, gets, -⟩ := Invoice.exists_gets_total
  obtain ⟨depth, ran⟩ := gets
  obtain ⟨world, collects, leads⟩ := Invoice.reachable_resumed
  have reachable : after.Reachable Invoice.rules (SameEnvironment id) :=
    ⟨world, collects, leads.tail (.request ran)⟩
  exact ⟨shared, after, ⟨depth, ran⟩, (Reachable.memos_linked reachable).1⟩

end Context

end IncrementalFrontend
