import IncrementalFrontend.Proofs.Incremental.History

/-!
Stored values and their identities. Each stored value gets an identity of its own, and the value of
a query that reads nothing stays where it is until its memo is collected.
-/
namespace IncrementalFrontend

variable {S : Signature} {rules : Rules S}

namespace Computation

variable {α β : Type}

def ReadsOnly (kind : S.Query → Prop) : Computation S α → Prop
  | pure _ | fail _ => True
  | read query next => kind query ∧ ∀ outcome, (next outcome).ReadsOnly kind
  | ask _ next => ∀ reply, (next reply).ReadsOnly kind
  | report _ next => next.ReadsOnly kind

variable {kind : S.Query → Prop} {computation : Computation S α}

theorem ReadsOnly.bind {next : α → Computation S β} (first : computation.ReadsOnly kind)
    (second : ∀ result, (next result).ReadsOnly kind) :
    (computation.bind next).ReadsOnly kind := by
  induction computation with
  | pure result => exact second result
  | fail error => trivial
  | read query before ih => exact ⟨first.1, fun outcome => ih outcome (first.2 outcome)⟩
  | ask request before ih => exact fun reply => ih reply (first reply)
  | report diagnostic before ih => exact ih first

theorem ReadsOnly.orElse {other : Computation S α} (first : computation.ReadsOnly kind)
    (second : other.ReadsOnly kind) : (computation.orElse other).ReadsOnly kind := by
  induction computation with
  | pure result => trivial
  | fail error => exact second
  | read query before ih => exact ⟨first.1, fun outcome => ih outcome (first.2 outcome)⟩
  | ask request before ih => exact fun reply => ih reply (first reply)
  | report diagnostic before ih => exact ih first

theorem Takes.of_pure {replies : (request : S.Request) → S.Reply request → Prop}
    {readings : List (Reading S)} {reports : List Diagnostic} {result : α}
    {ending : Except QueryError α}
    (takes : (Computation.pure result).Takes replies readings reports ending) :
    readings = [] ∧ ending = .ok result := by
  cases takes
  exact ⟨rfl, rfl⟩

theorem Takes.readsOnly {replies : (request : S.Request) → S.Reply request → Prop}
    {readings : List (Reading S)} {reports : List Diagnostic} {ending : Except QueryError α}
    (takes : computation.Takes replies readings reports ending)
    (only : computation.ReadsOnly kind) : ∀ reading ∈ readings, kind reading.query := by
  induction takes with
  | pure | fail => simp
  | read _ ih => exact List.forall_mem_cons.mpr ⟨only.1, ih (only.2 _)⟩
  | ask _ _ ih => exact ih (only _)
  | report _ ih => exact ih only

end Computation

def Account.nesting (kind : S.Query → Prop)
    (only : ∀ query, (rules.compute query).ReadsOnly kind) : Account rules :=
  { Account.plain rules with
    requested := fun path query => path = [] ∨ kind query
    requested_nil := fun _ => .inl rfl
    requested_next := by
      intro _ _ other _ outcome _ _ _ _ _ _ takes _
      exact ⟨.inr (takes.readsOnly (only _) ⟨other, outcome⟩ (by simp)), fun _ => False.elim⟩ }

def Accounting.nesting (drift : S.World → S.World → Prop) (kind : S.Query → Prop)
    (only : ∀ query, (rules.compute query).ReadsOnly kind) : Accounting rules drift where
  account _ _ := .nesting kind only
  world _ _ := trivial
  drifts _ _ := trivial
  past := id
  exact := id
  input _ := trivial
  free _ := trivial

def Rules.Returns (rules : Rules S) (query : S.Query) (value : S.Value query) : Prop :=
  rules.isVolatile query = false ∧ rules.compute query = .pure value

namespace Cache

variable {account : Account rules} {revision : Revision} {cache after : Cache S}
  {query : S.Query} {shared : Shared (S.Value query)}

def Stores (cache : Cache S) (query : S.Query) (shared : Shared (S.Value query)) : Prop :=
  ∃ slot entry, cache.memo? slot = some ⟨query, entry⟩ ∧ entry.value = some shared

theorem Stores.knows (stores : cache.Stores query shared) : cache.Knows query := by
  obtain ⟨slot, entry, here, -⟩ := stores
  exact ⟨slot, query?_eq here⟩

theorem Stores.unique {other : Shared (S.Value query)} (sound : cache.WellFormed)
    (first : cache.Stores query shared) (second : cache.Stores query other) : shared = other := by
  obtain ⟨slot, entry, here, value⟩ := first
  obtain ⟨place, known, there, value'⟩ := second
  obtain rfl := sound.unique (query?_eq here) (query?_eq there)
  rw [here] at there
  cases there
  exact Option.some.inj (value.symm.trans value')

structure Identified (cache : Cache S) (next : Nat) : Prop where
  below : ∀ {query shared}, cache.Stores query shared → shared.identity < next
  unique : ∀ {query shared other shared'}, cache.Stores query shared →
    cache.Stores other shared' → shared.identity = shared'.identity →
      (⟨query, shared⟩ : (query : S.Query) × Shared (S.Value query)) = ⟨other, shared'⟩

variable {start last : Cache S} {stack : List S.Query} {first next next' : Nat}

structure Adds (start : Cache S) (first : Nat) (last : Cache S) (next : Nat) : Prop where
  le : first ≤ next
  stores : ∀ {query shared}, last.Stores query shared →
    start.Stores query shared ∨ first ≤ shared.identity
  identified : start.Identified first → last.Identified next

theorem Adds.of_stores (subset : ∀ {query shared}, last.Stores query shared →
    start.Stores query shared) : start.Adds first last first where
  le := Nat.le_refl _
  stores := .inl ∘ subset
  identified known := ⟨known.below ∘ subset, fun here there => known.unique (subset here) (subset there)⟩

theorem Adds.trans {middle : Cache S} (left : start.Adds first middle next)
    (right : middle.Adds next last next') : start.Adds first last next' where
  le := Nat.le_trans left.le right.le
  stores stored := by
    obtain stored | new := right.stores stored
    · exact left.stores stored
    · exact .inr (Nat.le_trans left.le new)
  identified := right.identified ∘ left.identified

/-- One query gets a value with the next identity. -/
theorem Adds.of_put {place : Nat} {entry : Entry S query} (value : entry.value = some shared)
    (identity : shared.identity = first)
    (memo? : ∀ slot, last.memo? slot =
      if slot = place then some ⟨query, entry⟩ else start.memo? slot) :
    start.Adds first last (first + 1) := by
  have stores {other : S.Query} {shared' : Shared (S.Value other)}
      (stored : last.Stores other shared') :
      start.Stores other shared' ∨
        (⟨query, shared⟩ : (query : S.Query) × Shared (S.Value query)) = ⟨other, shared'⟩ := by
    obtain ⟨slot, known, here, value'⟩ := stored
    rw [memo?] at here
    split at here
    · cases here
      rw [value] at value'
      cases value'
      exact .inr rfl
    · exact .inl ⟨slot, known, here, value'⟩
  refine ⟨Nat.le_succ _, fun stored => ?_, fun identified => ⟨fun stored => ?_, ?_⟩⟩
  · obtain old | same := stores stored
    · exact .inl old
    · cases same
      exact .inr (Nat.le_of_eq identity.symm)
  · obtain old | same := stores stored
    · exact Nat.lt_succ_of_lt (identified.below old)
    · cases same
      exact identity ▸ Nat.lt_succ_self _
  · intro one shared₁ two shared₂ stored stored' same
    obtain old | new := stores stored <;> obtain old' | new' := stores stored'
    · exact identified.unique old old' same
    · cases new'
      exact absurd (identified.below old) (by rw [same, identity]; exact Nat.lt_irrefl _)
    · cases new
      exact absurd (identified.below old') (by rw [← same, identity]; exact Nat.lt_irrefl _)
    · exact new.symm.trans new'

/-- Requests store values with new identities only. -/
theorem Changes.adds (changes : start.Changes account revision stack first last next)
    (accounted : start.Accounted account revision) : start.Adds first last next := by
  induction changes with
  | refl => exact .of_stores id
  | recount hits validations _ ih => exact ih.trans (.of_stores id)
  | @insert cache _ path query changes absent _ _ ih =>
    refine ih.trans (.of_stores ?_)
    rintro other shared ⟨slot, entry, here, value⟩
    obtain new | here := memo?_of_memo?_insert (changes.accounted accounted).wellFormed _ here
    · cases new
      cases value
    · exact ⟨slot, entry, here, value⟩
  | @verify cache _ slot path query entry shared changes renews _ _ _ ih =>
    refine ih.trans (.of_stores ?_)
    rintro other shared' ⟨place, known, here, value⟩
    rw [memo?_put_of_live renews.live] at here
    split at here
    · cases here
      exact ⟨slot, entry, renews.live, value⟩
    · exact ⟨place, known, here, value⟩
  | compute _ renews _ _ _ _ ih =>
    exact ih.trans (.of_put renews.value rfl (memo?_put_of_live renews.live))

/-- A query gets a slot only if it is requested. -/
theorem Changes.requested (changes : start.Changes account revision stack first last next)
    (accounted : start.Accounted account revision) (known : last.Knows query) :
    start.Knows query ∨ ∃ path, account.requested path query ∧ stack <:+ query :: path := by
  induction changes with
  | refl => exact .inl known
  | recount hits validations _ ih => exact ih known
  | @insert cache _ path other changes absent requested within ih =>
    obtain ⟨slot, here⟩ := known
    obtain ⟨entry, here⟩ := memo?_of_query? here
    obtain new | here := memo?_of_memo?_insert (changes.accounted accounted).wellFormed _ here
    · cases new
      exact .inr ⟨path, requested, within⟩
    · exact ih ⟨slot, query?_eq here⟩
  | verify _ renews _ _ _ ih =>
    obtain ⟨slot, here⟩ := known
    exact ih ⟨slot, renews.query? ▸ here⟩
  | compute _ renews _ _ _ _ ih =>
    obtain ⟨slot, here⟩ := known
    exact ih ⟨slot, renews.query? ▸ here⟩

theorem Accounted.of_returns (accounted : cache.Accounted account revision)
    {value : S.Value query} (returns : rules.Returns query value) {slot : Nat}
    {entry : Entry S query} (here : cache.memo? slot = some ⟨query, entry⟩) :
    entry.dependencies = [] ∧
      (entry.origin = .derived → ∀ shared, entry.value = some shared → shared.value = value) := by
  have course {shared : Shared (S.Value query)} (derived : entry.origin = .derived)
      (stored : entry.value = some shared) : entry.dependencies = [] ∧ shared.value = value := by
    obtain ⟨replies, readings, records⟩ := accounted.recorded here derived stored
    have takes := records.takes
    rw [returns.2] at takes
    obtain ⟨rfl, same⟩ := takes.of_pure
    exact ⟨List.map_eq_nil_iff.mp records.dependencies, Except.ok.inj same⟩
  refine ⟨?_, fun derived shared stored => (course derived stored).2⟩
  cases stored : entry.value with
  | none => exact accounted.ofNone here stored
  | some shared =>
    cases origin : entry.origin with
    | input => exact (accounted.ofInput here origin).2.1
    | derived => exact (course origin stored).1

/-- A stored value of a query that reads nothing stays: the query is not computed again. -/
theorem Changes.stores_of_returns (changes : start.Changes account revision stack first last next)
    (accounted : start.Accounted account revision) {value : S.Value query}
    (returns : rules.Returns query value) (stored : start.Stores query shared) :
    last.Stores query shared := by
  induction changes with
  | refl => exact stored
  | recount hits validations _ ih => exact ih
  | @insert cache _ path other changes absent _ _ ih =>
    obtain ⟨slot, entry, here, value⟩ := ih
    have sound := (changes.accounted accounted).wellFormed
    exact ⟨slot, entry, memo?_insert_of_memo? sound _ here, value⟩
  | @verify cache _ slot path other entry shared' changes renews _ _ _ ih =>
    obtain ⟨place, known, here, value⟩ := ih
    by_cases same : place = slot
    · subst same
      rw [renews.live] at here
      cases here
      exact ⟨place, _, renews.memo?_self, value⟩
    · exact ⟨place, known, (renews.memo?_ne same).trans here, value⟩
  | @compute cache _ slot path other entry _ frame changes renews derived reason _ _ ih =>
    obtain ⟨place, known, here, value⟩ := ih
    by_cases same : place = slot
    · subst same
      rw [renews.live] at here
      cases here
      -- There is no reason to compute it: it has a value, is not volatile, and read nothing.
      cases reason with
      | unset none => simp [none] at value
      | volatile volatile => simp [returns.1] at volatile
      | changed read =>
        rw [((changes.accounted accounted).of_returns returns renews.live).1] at read
        cases read
    · exact ⟨place, known, (renews.memo?_ne same).trans here, value⟩

end Cache

namespace Context

variable {context : Context S} {query : S.Query} {shared : Shared (S.Value query)}

def Refers (rules : Rules S) (context : Context S) (identity : Nat) : Prop :=
  identity ∈ context.handles ∨
    ∃ query, context.cache.Knows query ∧ identity ∈ rules.references query

theorem isReferenced_of_knows {other : S.Query} {identity : Nat}
    (known : context.cache.Knows other) (mentioned : identity ∈ rules.references other) :
    context.isReferenced rules identity := by
  obtain ⟨slot, here⟩ := known
  obtain ⟨entry, here⟩ := Cache.memo?_of_query? here
  refine List.any_eq_true.mpr ⟨slot, Cache.mem_liveSlots.mpr (by simp [here]), ?_⟩
  simp [here, mentioned]

/-- A collection spares what is referred to. -/
theorem stores_collectGarbage (stored : context.cache.Stores query shared)
    (refers : context.Refers rules shared.identity) :
    (context.collectGarbage rules).2.cache.Stores query shared := by
  obtain ⟨slot, entry, here, value⟩ := stored
  have isHeld : context.isHeld rules ⟨query, entry⟩ := by
    simp only [isHeld, value, Option.any_some, Bool.or_eq_true, decide_eq_true_eq]
    exact refers.imp_right fun ⟨other, known, mentioned⟩ => isReferenced_of_knows known mentioned
  have needed := (Cache.unreached_closed context.cache context.cache.liveSlots
    (context.slotsWith (context.isHeld rules)) (Cache.nodup_liveSlots context.cache)).1 slot
      (mem_slotsWith.mpr ⟨_, here, isHeld⟩)
  refine ⟨slot, entry, (Cache.memo?_evict_of_not_mem fun member => ?_).trans here, value⟩
  exact needed (of_decide_eq_true (List.mem_filter.mp member).2)

theorem stores_of_collectGarbage
    (stored : (context.collectGarbage rules).2.cache.Stores query shared) :
    context.cache.Stores query shared := by
  obtain ⟨slot, entry, here, value⟩ := stored
  exact ⟨slot, entry, (Cache.memo?_of_evict here).2, value⟩

theorem knows_of_collectGarbage (known : (context.collectGarbage rules).2.cache.Knows query) :
    context.cache.Knows query := by
  obtain ⟨slot, here⟩ := known
  obtain ⟨entry, here⟩ := Cache.memo?_of_query? here
  exact ⟨slot, Cache.query?_eq (Cache.memo?_of_evict here).2⟩

theorem adds_storeInput (sound : context.cache.WellFormed) (value : S.Value query) :
    context.cache.Adds context.nextIdentity (context.storeInput query value).cache
      (context.storeInput query value).nextIdentity := by
  obtain ⟨slot, entry, sets, stored⟩ := sets_storeInput context sound query value
  exact .of_put stored rfl sets.memo?

theorem stores_storeInput_ne (sound : context.cache.WellFormed) {other : S.Query}
    (differ : query ≠ other) (value : S.Value other) (stored : context.cache.Stores query shared) :
    (context.storeInput other value).cache.Stores query shared := by
  obtain ⟨slot, entry, sets, -⟩ := sets_storeInput context sound other value
  obtain ⟨place, known, here, value⟩ := stored
  refine ⟨place, known, ?_, value⟩
  rw [sets.memo?, if_neg, here]
  rintro rfl
  obtain assigned | ⟨empty, -⟩ := sets.assigned
  · rw [Cache.query?_eq here] at assigned
    exact differ (Option.some.inj assigned)
  · rw [here] at empty
    cases empty

theorem knows_of_storeInput (sound : context.cache.WellFormed) {other : S.Query}
    {value : S.Value other} (known : (context.storeInput other value).cache.Knows query) :
    context.cache.Knows query ∨ query = other := by
  obtain ⟨slot, entry, sets, -⟩ := sets_storeInput context sound other value
  obtain ⟨place, here⟩ := known
  obtain ⟨known, here⟩ := Cache.memo?_of_query? here
  rw [sets.memo?] at here
  split at here
  · cases here
    exact .inr rfl
  · exact .inl ⟨place, Cache.query?_eq here⟩

end Context

end IncrementalFrontend
