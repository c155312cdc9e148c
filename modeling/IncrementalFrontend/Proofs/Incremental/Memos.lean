import IncrementalFrontend.Proofs.Incremental.Account

/-!
What the memos of a cache hold in a revision, and what requests may change of them. Each memo
records one course of its query, and what the course read stays cached; a dependency that has not
changed since still has the value that was read.
-/
namespace IncrementalFrontend

variable {S : Signature} {rules : Rules S}

namespace Entry

variable {query : S.Query}

def IsCurrent (entry : Entry S query) (revision : Revision) : Prop :=
  entry.value.isSome ∧ entry.verifiedAt = revision

structure Grows (exact : Prop) (revision : Revision) (before after : Entry S query) : Prop where
  origin : after.origin = before.origin
  value : before.value.isSome → after.value.isSome
  verifiedAt : before.verifiedAt ≤ after.verifiedAt
  current : before.IsCurrent revision → after = before
  changed : after.changedAt = revision ∨ after.changedAt = before.changedAt ∧
    (exact → after.value.map (·.value) = before.value.map (·.value))

variable {exact : Prop} {revision : Revision} {first second third : Entry S query}

theorem Grows.refl (entry : Entry S query) : entry.Grows exact revision entry :=
  ⟨rfl, id, Nat.le_refl _, fun _ => rfl, .inr ⟨rfl, fun _ => rfl⟩⟩

theorem Grows.trans (left : first.Grows exact revision second)
    (right : second.Grows exact revision third) : first.Grows exact revision third where
  origin := right.origin.trans left.origin
  value := right.value ∘ left.value
  verifiedAt := Nat.le_trans left.verifiedAt right.verifiedAt
  current now := by
    have same := left.current now
    subst same
    exact right.current now
  changed := by
    obtain changed | ⟨same, values⟩ := right.changed
    · exact .inl changed
    · obtain changed | ⟨same', values'⟩ := left.changed
      · exact .inl (same.trans changed)
      · exact .inr ⟨same.trans same', fun exact => (values exact).trans (values' exact)⟩

end Entry

namespace Cache

variable {account : Account rules} {revision : Revision} {cache : Cache S} {place : Nat}
  {query : S.Query}

def input? (cache : Cache S) (query : S.Query) : Option (S.Value query) :=
  match cache.find? query with
  | some (_, entry) => if entry.origin = .input then entry.value.map (·.value) else none
  | none => none

theorem input?_eq_some_iff (sound : cache.WellFormed) {value : S.Value query} :
    cache.input? query = some value ↔ ∃ slot entry, cache.memo? slot = some ⟨query, entry⟩ ∧
      entry.origin = .input ∧ entry.value.map (·.value) = some value := by
  constructor
  · intro known
    unfold input? at known
    cases found : cache.find? query with
    | none => simp [found] at known
    | some result =>
      obtain ⟨slot, entry⟩ := result
      simp only [found] at known
      split at known
      · rename_i isInput
        exact ⟨slot, entry, memo?_of_find? found, isInput, known⟩
      · cases known
  · rintro ⟨slot, entry, here, isInput, known⟩
    simp [input?, sound.find?_eq here, isInput, known]

/-- Values that were read and whose queries have not changed since are still stored. -/
def Supports (cache : Cache S) (exact : Prop) (readings : List (Reading S)) (since : Revision) :
    Prop :=
  exact → ∀ other known, ⟨other, .ok known⟩ ∈ readings → ∀ slot entry shared,
    cache.memo? slot = some ⟨other, entry⟩ → entry.value = some shared →
      entry.changedAt ≤ since → shared.value = known

/-- An entry records the last execution of its query: what it read and reported, and its result. -/
structure Records (cache : Cache S) (account : Account rules) (revision : Revision) (slot : Nat)
    (entry : Entry S query) (shared : Shared (S.Value query))
    (replies : (request : S.Request) → S.Reply request → Prop) (readings : List (Reading S)) :
    Prop where
  past : account.past replies
  executed : account.journal.Executed slot query entry.executions readings entry.diagnostics shared
  takes : (rules.compute query).Takes replies readings entry.diagnostics (.ok shared.value)
  dependencies :
    entry.dependencies.map cache.query? = (Reading.firstQueries readings).map some
  now : entry.verifiedAt = revision → replies = account.replies
  supports : cache.Supports account.exact readings entry.verifiedAt

structure Accounted (account : Account rules) (revision : Revision) (cache : Cache S) : Prop where
  wellFormed : cache.WellFormed
  changedAt_le : ∀ {slot query entry}, cache.memo? slot = some ⟨query, entry⟩ →
    entry.changedAt ≤ entry.verifiedAt
  verifiedAt_le : ∀ {slot query entry}, cache.memo? slot = some ⟨query, entry⟩ →
    entry.verifiedAt ≤ revision
  ofInput : ∀ {slot query entry}, cache.memo? slot = some ⟨query, entry⟩ → entry.origin = .input →
    entry.value.isSome ∧ entry.dependencies = [] ∧ entry.diagnostics = []
  ofNone : ∀ {slot query entry}, cache.memo? slot = some ⟨query, entry⟩ → entry.value = none →
    entry.dependencies = []
  dependency : ∀ {slot query entry}, cache.memo? slot = some ⟨query, entry⟩ →
    ∀ dependency ∈ entry.dependencies, ∃ other known,
      cache.memo? dependency = some ⟨other, known⟩ ∧ known.value.isSome ∧
        entry.verifiedAt ≤ known.verifiedAt
  recorded : ∀ {slot query entry shared}, cache.memo? slot = some ⟨query, entry⟩ →
    entry.origin = .derived → entry.value = some shared →
      ∃ replies readings, cache.Records account revision slot entry shared replies readings
  current : ∀ {slot query entry shared}, cache.memo? slot = some ⟨query, entry⟩ →
    entry.value = some shared → entry.verifiedAt = revision → account.answer query shared.value
  input : ∀ {query value}, cache.input? query = some value → account.answer query value
  free : ∀ {query}, cache.input? query = none → account.free query

structure Grows (exact : Prop) (revision : Revision) (busy : List Nat) (before after : Cache S) :
    Prop where
  memo : ∀ {slot query entry}, before.memo? slot = some ⟨query, entry⟩ →
    ∃ entry', after.memo? slot = some ⟨query, entry'⟩ ∧ entry.Grows exact revision entry'
  busy : ∀ slot ∈ busy, after.memo? slot = before.memo? slot
  input? : after.input? = before.input?

namespace Grows

variable {exact : Prop} {busy : List Nat} {first second third : Cache S}

theorem refl (cache : Cache S) : cache.Grows exact revision busy cache :=
  ⟨fun here => ⟨_, here, .refl _⟩, fun _ _ => rfl, rfl⟩

theorem trans (left : first.Grows exact revision busy second)
    (right : second.Grows exact revision busy third) : first.Grows exact revision busy third where
  memo here := by
    obtain ⟨middle, there, grows⟩ := left.memo here
    obtain ⟨last, final, grows'⟩ := right.memo there
    exact ⟨last, final, grows.trans grows'⟩
  busy slot member := (right.busy slot member).trans (left.busy slot member)
  input? := right.input?.trans left.input?

theorem mono {fewer : List Nat} (grows : first.Grows exact revision busy second)
    (subset : ∀ slot ∈ fewer, slot ∈ busy) : first.Grows exact revision fewer second :=
  ⟨grows.memo, fun slot member => grows.busy slot (subset slot member), grows.input?⟩

theorem query? (grows : first.Grows exact revision busy second)
    (here : first.query? place = some query) : second.query? place = some query := by
  obtain ⟨entry, here⟩ := memo?_of_query? here
  obtain ⟨entry', there, -⟩ := grows.memo here
  exact query?_eq there

theorem map_query? (grows : first.Grows exact revision busy second) {slots : List Nat}
    {queries : List S.Query} (here : slots.map first.query? = queries.map some) :
    slots.map second.query? = queries.map some := by
  induction slots generalizing queries with
  | nil => exact here
  | cons slot slots ih =>
    cases queries with
    | nil => simp at here
    | cons query queries =>
      simp only [List.map_cons, List.cons.injEq] at here ⊢
      exact ⟨grows.query? here.1, ih here.2⟩

/-- Values that were read are still stored after requests of a later revision. -/
theorem supports (grows : first.Grows exact revision busy second) (sound : second.WellFormed)
    {readings : List (Reading S)} {since : Revision}
    (supports : first.Supports exact readings since)
    (slots : ∀ other known, ⟨other, .ok known⟩ ∈ readings → ∃ slot, first.query? slot = some other)
    (before : since < revision) : second.Supports exact readings since := by
  intro isExact other known member slot entry shared here value unchanged
  obtain ⟨old, cached⟩ := slots other known member
  have same := sound.unique (grows.query? cached) (query?_eq here)
  subst same
  obtain ⟨entry₀, here₀⟩ := memo?_of_query? cached
  obtain ⟨entry', there, grows⟩ := grows.memo here₀
  rw [here] at there
  cases there
  obtain changed | ⟨same, values⟩ := grows.changed
  · rw [changed] at unchanged
    exact absurd unchanged (Nat.not_le.mpr before)
  · have values := values isExact
    rw [value] at values
    obtain ⟨shared₀, value₀, equal⟩ := Option.map_eq_some_iff.mp values.symm
    have equal : shared₀.value = shared.value := equal
    rw [← equal]
    exact supports isExact other known member old entry₀ shared₀ here₀ value₀ (same ▸ unchanged)

end Grows

theorem exists_assigned {slots : List Nat} {queries : List S.Query}
    (assigned : slots.map cache.query? = queries.map some) {other : S.Query}
    (member : other ∈ queries) : ∃ slot ∈ slots, cache.query? slot = some other := by
  have mentioned : some other ∈ queries.map some := List.mem_map_of_mem member
  rw [← assigned] at mentioned
  exact List.mem_map.mp mentioned

theorem Records.exists_dependency {entry : Entry S query} {shared : Shared (S.Value query)}
    {replies : (request : S.Request) → S.Reply request → Prop} {readings : List (Reading S)}
    (records : cache.Records account revision place entry shared replies readings)
    {other : S.Query} {known : S.Value other} (member : ⟨other, .ok known⟩ ∈ readings) :
    ∃ dependency ∈ entry.dependencies, cache.query? dependency = some other :=
  exists_assigned records.dependencies (Reading.mem_firstQueries.mpr ⟨known, member⟩)

/-- A memo that keeps its dependencies keeps its record. -/
theorem Records.of_cache {after : Cache S} {entry : Entry S query}
    {shared : Shared (S.Value query)} {replies : (request : S.Request) → S.Reply request → Prop}
    {readings : List (Reading S)}
    (records : cache.Records account revision place entry shared replies readings)
    (kept : ∀ dependency ∈ entry.dependencies, after.query? dependency = cache.query? dependency)
    (supports : after.Supports account.exact readings entry.verifiedAt) :
    after.Records account revision place entry shared replies readings where
  past := records.past
  executed := records.executed
  takes := records.takes
  dependencies := (List.map_congr_left kept).trans records.dependencies
  now := records.now
  supports := supports

theorem Accounted.exists_below (accounted : cache.Accounted account revision)
    {entry : Entry S query} (here : cache.memo? place = some ⟨query, entry⟩) :
    ∃ below : List S.Query, entry.dependencies.map cache.query? = below.map some := by
  cases value : entry.value with
  | none =>
    refine ⟨[], ?_⟩
    rw [accounted.ofNone here value]
    rfl
  | some shared =>
    cases origin : entry.origin with
    | input =>
      refine ⟨[], ?_⟩
      rw [(accounted.ofInput here origin).2.1]
      rfl
    | derived =>
      obtain ⟨replies, readings, records⟩ := accounted.recorded here origin value
      exact ⟨_, records.dependencies⟩

theorem Accounted.dependency_isCurrent (accounted : cache.Accounted account revision)
    {entry : Entry S query} (here : cache.memo? place = some ⟨query, entry⟩)
    (now : entry.verifiedAt = revision) {dependency : Nat} (read : dependency ∈ entry.dependencies)
    {other : S.Query} {known : Entry S other}
    (there : cache.memo? dependency = some ⟨other, known⟩) :
    known.IsCurrent revision := by
  obtain ⟨_, _, found, hasValue, later⟩ := accounted.dependency here dependency read
  rw [there] at found
  cases found
  exact ⟨hasValue, Nat.le_antisymm (accounted.verifiedAt_le there) (now ▸ later)⟩

/-- A memo that is stale in the revision gets an entry verified in it. -/
structure Renews (account : Account rules) (revision : Revision) (cache : Cache S) (slot : Nat)
    (old new : Entry S query) (shared : Shared (S.Value query)) : Prop where
  live : cache.memo? slot = some ⟨query, old⟩
  stale : ¬ old.IsCurrent revision
  origin : new.origin = old.origin
  verifiedAt : new.verifiedAt = revision
  changed : new.changedAt = revision ∨ new.changedAt = old.changedAt ∧
    (account.exact → new.value.map (·.value) = old.value.map (·.value))
  value : new.value = some shared
  answer : account.answer query shared.value
  ofInput : old.origin = .input →
    new.value = old.value ∧ new.dependencies = [] ∧ new.diagnostics = []
  dependency : ∀ dependency ∈ new.dependencies, ∃ other known,
    cache.memo? dependency = some ⟨other, known⟩ ∧ known.IsCurrent revision
  course : old.origin = .derived → ∃ readings,
    account.journal.Executed slot query new.executions readings new.diagnostics shared ∧
    (rules.compute query).Takes account.replies readings new.diagnostics (.ok shared.value) ∧
      new.dependencies.map cache.query? = (Reading.firstQueries readings).map some ∧
      ∀ other known, ⟨other, .ok known⟩ ∈ readings → account.answer other known

namespace Renews

variable {slot : Nat} {old new : Entry S query} {shared : Shared (S.Value query)}

theorem memo?_self (renews : cache.Renews account revision slot old new shared) :
    (cache.put slot ⟨query, new⟩).memo? slot = some ⟨query, new⟩ := by
  rw [memo?_put_of_live renews.live, if_pos rfl]

theorem memo?_ne (renews : cache.Renews account revision slot old new shared)
    (differ : place ≠ slot) : (cache.put slot ⟨query, new⟩).memo? place = cache.memo? place := by
  rw [memo?_put_of_live renews.live, if_neg differ]

/-- A memo is the one that was renewed, or it is as before. -/
theorem eq_or_memo? (renews : cache.Renews account revision slot old new shared) {other : S.Query}
    {entry : Entry S other}
    (here : (cache.put slot ⟨query, new⟩).memo? place = some ⟨other, entry⟩) :
    (place = slot ∧ (⟨query, new⟩ : Memo S) = ⟨other, entry⟩) ∨
      place ≠ slot ∧ cache.memo? place = some ⟨other, entry⟩ := by
  by_cases same : place = slot
  · subst same
    rw [renews.memo?_self] at here
    exact .inl ⟨rfl, Option.some.inj here⟩
  · exact .inr ⟨same, (renews.memo?_ne same).symm.trans here⟩

theorem ne_of_isCurrent (renews : cache.Renews account revision slot old new shared)
    {other : S.Query} {known : Entry S other} (there : cache.memo? place = some ⟨other, known⟩)
    (current : known.IsCurrent revision) : place ≠ slot := by
  rintro rfl
  rw [renews.live] at there
  cases there
  exact renews.stale current

theorem query? (renews : cache.Renews account revision slot old new shared) :
    (cache.put slot ⟨query, new⟩).query? = cache.query? :=
  funext (query?_put_of_live renews.live rfl)

theorem wellFormed (renews : cache.Renews account revision slot old new shared)
    (sound : cache.WellFormed) : (cache.put slot ⟨query, new⟩).WellFormed :=
  sound.put renews.live rfl

theorem input? (renews : cache.Renews account revision slot old new shared)
    (sound : cache.WellFormed) : (cache.put slot ⟨query, new⟩).input? = cache.input? := by
  funext other
  refine Option.ext fun value => ?_
  rw [input?_eq_some_iff sound, input?_eq_some_iff (renews.wellFormed sound)]
  constructor
  · rintro ⟨place, entry, here, isInput, known⟩
    obtain ⟨rfl, same⟩ | ⟨-, here⟩ := renews.eq_or_memo? here
    · cases same
      have isInput := renews.origin.symm.trans isInput
      exact ⟨place, old, renews.live, isInput, (renews.ofInput isInput).1 ▸ known⟩
    · exact ⟨place, entry, here, isInput, known⟩
  · rintro ⟨place, entry, here, isInput, known⟩
    by_cases same : place = slot
    · subst same
      rw [renews.live] at here
      cases here
      exact ⟨place, new, renews.memo?_self, renews.origin.trans isInput,
        (renews.ofInput isInput).1.symm ▸ known⟩
    · exact ⟨place, entry, (renews.memo?_ne same).trans here, isInput, known⟩

theorem grows (renews : cache.Renews account revision slot old new shared)
    (accounted : cache.Accounted account revision) {busy : List Nat} (idle : slot ∉ busy) :
    cache.Grows account.exact revision busy (cache.put slot ⟨query, new⟩) where
  memo {place other entry} here := by
    by_cases same : place = slot
    · subst same
      rw [renews.live] at here
      cases here
      refine ⟨new, renews.memo?_self, ?_⟩
      exact
        { origin := renews.origin
          value := fun _ => by simp [renews.value]
          verifiedAt := renews.verifiedAt ▸ accounted.verifiedAt_le renews.live
          current := fun now => absurd now renews.stale
          changed := renews.changed }
    · exact ⟨entry, (renews.memo?_ne same).trans here, .refl entry⟩
  busy place member := by
    refine renews.memo?_ne ?_
    rintro rfl
    exact idle member
  input? := renews.input? accounted.wellFormed

theorem records (renews : cache.Renews account revision slot old new shared)
    (accounted : cache.Accounted account revision) (derived : old.origin = .derived) :
    ∃ replies readings,
      (cache.put slot ⟨query, new⟩).Records account revision slot new shared replies readings := by
  obtain ⟨readings, executed, takes, dependencies, answers⟩ := renews.course derived
  refine ⟨account.replies, readings, account.past_replies, executed, takes,
    renews.query? ▸ dependencies, fun _ => rfl, ?_⟩
  intro exact other known member place entry shared' here value _
  obtain ⟨dependency, read, found⟩ :=
    exists_assigned dependencies (Reading.mem_firstQueries.mpr ⟨known, member⟩)
  have same : place = dependency := by
    refine accounted.wellFormed.unique ?_ found
    rw [← renews.query?]
    exact query?_eq here
  subst same
  obtain ⟨_, found', there, current⟩ := renews.dependency place read
  have differ := renews.ne_of_isCurrent there current
  rw [renews.memo?_ne differ, there] at here
  cases here
  exact account.answer_unique exact (accounted.current there value current.2)
    (answers other known member)

theorem records_ne (renews : cache.Renews account revision slot old new shared)
    (accounted : cache.Accounted account revision) (differ : place ≠ slot) {other : S.Query}
    {entry : Entry S other} {known : Shared (S.Value other)}
    (here : cache.memo? place = some ⟨other, entry⟩)
    {replies : (request : S.Request) → S.Reply request → Prop} {readings : List (Reading S)}
    (records : cache.Records account revision place entry known replies readings) :
    (cache.put slot ⟨query, new⟩).Records account revision place entry known replies readings := by
  refine records.of_cache (fun dependency _ => congrFun renews.query? dependency) ?_
  obtain earlier | now := Nat.lt_or_eq_of_le (accounted.verifiedAt_le here)
  · refine (renews.grows accounted List.not_mem_nil).supports
      (renews.wellFormed accounted.wellFormed) records.supports ?_ earlier
    intro third known member
    obtain ⟨dependency, -, found⟩ := records.exists_dependency member
    exact ⟨dependency, found⟩
  · -- What the memo read is verified in the revision too, so it is not what is renewed.
    intro exact third known member dependency found shared' there value' unchanged
    obtain ⟨read, inside, assigned⟩ := records.exists_dependency member
    have same : dependency = read := by
      refine accounted.wellFormed.unique ?_ assigned
      rw [← renews.query?]
      exact query?_eq there
    subst same
    have apart : dependency ≠ slot := by
      rintro rfl
      exact renews.stale (accounted.dependency_isCurrent here now inside renews.live)
    rw [renews.memo?_ne apart] at there
    exact records.supports exact third known member dependency found shared' there value' unchanged

theorem accounted (renews : cache.Renews account revision slot old new shared)
    (accounted : cache.Accounted account revision) :
    (cache.put slot ⟨query, new⟩).Accounted account revision := by
  refine
    { wellFormed := renews.wellFormed accounted.wellFormed
      changedAt_le := ?_, verifiedAt_le := ?_, ofInput := ?_, ofNone := ?_, dependency := ?_,
      recorded := ?_, current := ?_, input := ?_, free := ?_ }
  · intro place other entry here
    obtain ⟨rfl, same⟩ | ⟨-, here⟩ := renews.eq_or_memo? here
    · cases same
      rw [renews.verifiedAt]
      obtain changed | ⟨changed, -⟩ := renews.changed
      · exact Nat.le_of_eq changed
      · rw [changed]
        have earlier := accounted.changedAt_le renews.live
        exact Nat.le_trans earlier (accounted.verifiedAt_le renews.live)
    · exact accounted.changedAt_le here
  · intro place other entry here
    obtain ⟨rfl, same⟩ | ⟨-, here⟩ := renews.eq_or_memo? here
    · cases same
      exact Nat.le_of_eq renews.verifiedAt
    · exact accounted.verifiedAt_le here
  · intro place other entry here isInput
    obtain ⟨rfl, same⟩ | ⟨-, here⟩ := renews.eq_or_memo? here
    · cases same
      have isInput := renews.origin.symm.trans isInput
      exact ⟨by simp [renews.value], (renews.ofInput isInput).2⟩
    · exact accounted.ofInput here isInput
  · intro place other entry here none
    obtain ⟨rfl, same⟩ | ⟨-, here⟩ := renews.eq_or_memo? here
    · cases same
      simp [renews.value] at none
    · exact accounted.ofNone here none
  · intro place other entry here dependency read
    obtain ⟨rfl, same⟩ | ⟨-, here⟩ := renews.eq_or_memo? here
    · cases same
      obtain ⟨third, known, there, current⟩ := renews.dependency dependency read
      have differ := renews.ne_of_isCurrent there current
      exact ⟨third, known, (renews.memo?_ne differ).trans there, current.1,
        Nat.le_of_eq (renews.verifiedAt.trans current.2.symm)⟩
    · have earlier := accounted.verifiedAt_le here
      obtain ⟨third, known, there, hasValue, later⟩ := accounted.dependency here dependency read
      by_cases same : dependency = slot
      · subst same
        refine ⟨query, new, renews.memo?_self, by simp [renews.value], ?_⟩
        rw [renews.verifiedAt]
        exact earlier
      · exact ⟨third, known, (renews.memo?_ne same).trans there, hasValue, later⟩
  · intro place other entry known here derived value
    obtain ⟨rfl, same⟩ | ⟨differ, here⟩ := renews.eq_or_memo? here
    · cases same
      rw [renews.value] at value
      cases value
      exact renews.records accounted (renews.origin.symm.trans derived)
    · obtain ⟨replies, readings, records⟩ := accounted.recorded here derived value
      exact ⟨replies, readings, renews.records_ne accounted differ here records⟩
  · intro place other entry known here value now
    obtain ⟨rfl, same⟩ | ⟨-, here⟩ := renews.eq_or_memo? here
    · cases same
      rw [renews.value] at value
      cases value
      exact renews.answer
    · exact accounted.current here value now
  · rw [renews.input? accounted.wellFormed]
    exact accounted.input
  · rw [renews.input? accounted.wellFormed]
    exact accounted.free

end Renews

/-- More requests take nothing away. -/
theorem Accounted.among (accounted : cache.Accounted account revision) {journal : Journal rules}
    (within : account.journal.Within journal) : cache.Accounted
    (account.among journal) revision where
  wellFormed := accounted.wellFormed
  changedAt_le := accounted.changedAt_le
  verifiedAt_le := accounted.verifiedAt_le
  ofInput := accounted.ofInput
  ofNone := accounted.ofNone
  dependency := accounted.dependency
  recorded here derived value := by
    obtain ⟨replies, readings, records⟩ := accounted.recorded here derived value
    exact ⟨replies, readings, records.past, records.executed.mono within, records.takes,
      records.dependencies, records.now, records.supports⟩
  current := accounted.current
  input := accounted.input
  free := accounted.free

theorem Accounted.recount (accounted : cache.Accounted account revision) (counts : CacheCounts) :
    { cache with counts }.Accounted account revision where
  wellFormed := ⟨accounted.wellFormed.unique, accounted.wellFormed.nodup_free,
    accounted.wellFormed.mem_free⟩
  changedAt_le := accounted.changedAt_le
  verifiedAt_le := accounted.verifiedAt_le
  ofInput := accounted.ofInput
  ofNone := accounted.ofNone
  dependency := accounted.dependency
  recorded here derived value := by
    obtain ⟨replies, readings, records⟩ := accounted.recorded here derived value
    exact ⟨replies, readings, records.of_cache (fun _ _ => rfl) records.supports⟩
  current := accounted.current
  input := accounted.input
  free := accounted.free

theorem Grows.recount (cache : Cache S) (exact : Prop) (revision : Revision) (busy : List Nat)
    (counts : CacheCounts) : cache.Grows exact revision busy { cache with counts } :=
  ⟨fun here => ⟨_, here, .refl _⟩, fun _ _ => rfl, rfl⟩

section Insert

variable (sound : cache.WellFormed) (absent : ∀ slot, cache.query? slot ≠ some query)
  (revision : Revision)

include sound

theorem memo?_insert_of_memo? {memo : Memo S} (here : cache.memo? place = some memo) :
    (cache.insert query .derived revision).2.memo? place = some memo :=
  (sound.memo?_insert_of_ne (sound.insert_ne_of_live here _ _ _).symm).trans here

theorem memo?_of_memo?_insert {memo : Memo S}
    (here : (cache.insert query .derived revision).2.memo? place = some memo) :
    memo = newMemo query .derived revision ∨ cache.memo? place = some memo := by
  rw [sound.memo?_insert] at here
  split at here
  · exact .inl (Option.some.inj here).symm
  · exact .inr here

include absent

theorem input?_insert : (cache.insert query .derived revision).2.input? = cache.input? := by
  funext other
  refine Option.ext fun value => ?_
  rw [input?_eq_some_iff sound, input?_eq_some_iff (sound.insert absent .derived revision)]
  constructor
  · rintro ⟨place, entry, here, isInput, known⟩
    obtain new | here := memo?_of_memo?_insert sound revision here
    · cases new
      cases isInput
    · exact ⟨place, entry, here, isInput, known⟩
  · rintro ⟨place, entry, here, isInput, known⟩
    exact ⟨place, entry, memo?_insert_of_memo? sound revision here, isInput, known⟩

theorem Grows.insert (exact : Prop) (busy : List Nat)
    (live : ∀ slot ∈ busy, (cache.memo? slot).isSome) :
    cache.Grows exact revision busy (cache.insert query .derived revision).2 where
  memo here := ⟨_, memo?_insert_of_memo? sound revision here, .refl _⟩
  busy slot member := by
    obtain ⟨memo, here⟩ := Option.isSome_iff_exists.mp (live slot member)
    rw [here, memo?_insert_of_memo? sound revision here]
  input? := input?_insert sound absent revision

end Insert

theorem Accounted.insert (accounted : cache.Accounted account revision)
    (absent : ∀ slot, cache.query? slot ≠ some query) :
    (cache.insert query .derived revision).2.Accounted account revision := by
  have sound := accounted.wellFormed
  have grows := Grows.insert sound absent revision account.exact [] (by simp)
  have each {place : Nat} {other : S.Query} {entry : Entry S other}
      (here : (cache.insert query .derived revision).2.memo? place = some ⟨other, entry⟩) :
      newMemo query .derived revision = ⟨other, entry⟩ ∨ cache.memo? place = some ⟨other, entry⟩ :=
    (memo?_of_memo?_insert sound revision here).imp_left Eq.symm
  refine
    { wellFormed := sound.insert absent .derived revision
      changedAt_le := ?_, verifiedAt_le := ?_, ofInput := ?_, ofNone := ?_, dependency := ?_,
      recorded := ?_, current := ?_, input := ?_, free := ?_ }
  · intro place other entry here
    obtain new | here := each here
    · cases new
      exact Nat.le_refl _
    · exact accounted.changedAt_le here
  · intro place other entry here
    obtain new | here := each here
    · cases new
      exact Nat.le_refl _
    · exact accounted.verifiedAt_le here
  · intro place other entry here isInput
    obtain new | here := each here
    · cases new
      cases isInput
    · exact accounted.ofInput here isInput
  · intro place other entry here none
    obtain new | here := each here
    · cases new
      rfl
    · exact accounted.ofNone here none
  · intro place other entry here dependency read
    obtain new | here := each here
    · cases new
      cases read
    · obtain ⟨third, known, there, rest⟩ := accounted.dependency here dependency read
      exact ⟨third, known, memo?_insert_of_memo? sound revision there, rest⟩
  · intro place other entry shared here derived value
    obtain new | here := each here
    · cases new
      cases value
    · obtain ⟨replies, readings, records⟩ := accounted.recorded here derived value
      refine ⟨replies, readings, records.of_cache ?_ ?_⟩
      · intro dependency read
        obtain ⟨third, known, there, -⟩ := accounted.dependency here dependency read
        exact (grows.query? (query?_eq there)).trans (query?_eq there).symm
      intro exact third known member slot entry' shared' there value' unchanged
      obtain new | there := each there
      · cases new
        cases value'
      · exact records.supports exact third known member slot entry' shared' there value' unchanged
  · intro place other entry shared here value now
    obtain new | here := each here
    · cases new
      cases value
    · exact accounted.current here value now
  · rw [grows.input?]
    exact accounted.input
  · rw [grows.input?]
    exact accounted.free

end Cache

end IncrementalFrontend
