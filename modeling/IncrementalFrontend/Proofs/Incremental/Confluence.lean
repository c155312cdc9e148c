import Mathlib.Data.List.Perm.Basic
import IncrementalFrontend.Proofs.Incremental.Validations

/-!
Requests in another order. Within a revision each request ends the same wherever it stands among
others, and what is known of every query afterwards is told by the set of the requested queries.
-/
namespace IncrementalFrontend

variable {S : Signature} {rules : Rules S} {E : Type} {environment : S.World → E}

namespace Cache

variable {snapshot : Snapshot S} {revision : Revision} {cache after : Cache S}
  {path : List S.Query} {query : S.Query}

/-- Queries without answers that lead only to each other, to a path, and to queries verified in the
revision. -/
def IsFailing (rules : Rules S) (snapshot : Snapshot S) (revision : Revision) (cache : Cache S)
    (path : List S.Query) (failing : S.Query → Prop) : Prop :=
  ∀ query, failing query →
    cache.Knows query ∧ (∀ value, ¬ rules.Answers snapshot query value) ∧
      ∀ other, rules.Requests snapshot query other →
        cache.HasCurrent revision other ∨ failing other ∨ other ∈ path

def Failed (rules : Rules S) (snapshot : Snapshot S) (revision : Revision) (cache : Cache S)
    (path : List S.Query) (query : S.Query) : Prop :=
  (∃ failing, cache.IsFailing rules snapshot revision path failing ∧ failing query) ∨ query ∈ path

theorem Failed.of_course (known : cache.Knows query)
    (none : ∀ value, ¬ rules.Answers snapshot query value) {reports : List Diagnostic}
    {readings : List (Reading S)} {ending : Except QueryError (S.Value query)}
    (takes : (rules.compute query).Takes snapshot.Replies readings reports ending)
    (faithful : ∀ reading ∈ readings, rules.Faithful snapshot reading)
    (below : ∀ reading ∈ readings, cache.HasCurrent revision reading.query ∨
      cache.Failed rules snapshot revision (query :: path) reading.query) :
    cache.Failed rules snapshot revision path query := by
  -- All that failed below the query fails with it.
  let failing (other : S.Query) : Prop := other = query ∨ ∃ inner,
    cache.IsFailing rules snapshot revision (query :: path) inner ∧ inner other
  refine .inl ⟨failing, ?_, .inl rfl⟩
  rintro _ (rfl | ⟨inner, isFailing, member⟩)
  · refine ⟨known, none, fun other requests => ?_⟩
    obtain ⟨reading, inside, rfl⟩ := requests.mem takes faithful
    obtain current | failed | repeated := below reading inside
    · exact .inl current
    · exact .inr (.inl (.inr failed))
    · exact .inr ((List.mem_cons.mp repeated).imp_left .inl)
  · obtain ⟨known, none, leads⟩ := isFailing _ member
    refine ⟨known, none, fun other requests => ?_⟩
    obtain current | failed | repeated := leads other requests
    · exact .inl current
    · exact .inr (.inl (.inr ⟨inner, isFailing, failed⟩))
    · exact .inr ((List.mem_cons.mp repeated).imp_left .inl)

end Cache

section Run

variable {deterministic : rules.Deterministic environment} {now : S.World}
  {input? : (query : S.Query) → Option (S.Value query)} {revision : Revision} {cache : Cache S}
  {path : List S.Query} {query : S.Query} {error : QueryError}

theorem Cache.Breaks.failed
    (breaks : cache.Breaks (.fromScratch deterministic now input?) revision path query error)
    (requested : rules.Requested (rules.snapshot now input?) path query) :
    cache.Failed rules (rules.snapshot now input?) revision path query := by
  have unanswered := fun value => breaks.failure.not_answers requested value
  induction breaks with
  | repeated _ member => exact .inr member
  | @computed path query readings reports error free fresh known takes answers below ih =>
    have next {reading : Reading S} (member : reading ∈ readings) :
        rules.Requested (rules.snapshot now input?) (query :: path) reading.query := by
      obtain ⟨before, after, rfl⟩ := List.append_of_mem member
      have requests := (Account.fromScratch deterministic now input?).requested_next requested free
        fresh takes fun earlier inside value ended =>
          (answers earlier (List.mem_append_left _ inside) value ended).1
      exact requests.1
    refine .of_course known unanswered takes ?_ ?_
    · intro reading member
      cases outcome : reading.outcome with
      | ok value => exact .inl ⟨value, outcome, (answers reading member value outcome).1⟩
      | error error =>
        exact .inr ⟨error, outcome,
          (below reading member error outcome).failure.not_answers (next member)⟩
    · intro reading member
      cases outcome : reading.outcome with
      | ok value => exact .inl (answers reading member value outcome).2
      | error error =>
        exact .inr (ih reading member error outcome (next member)
          ((below reading member error outcome).failure.not_answers (next member)))
  | @checked path query other before after outcome reports value error free fresh known takes
      answers below ih =>
    have requests := (Account.fromScratch deterministic now input?).requested_next requested free
      fresh takes fun earlier inside value ended => (answers earlier inside value ended).1
    have none := fun value => below.failure.not_answers requests.1 value
    have correct := Rules.correct_before takes (deterministic.propagates query)
      fun earlier inside value ended => (answers earlier inside value ended).1
    obtain ⟨reports, cut⟩ := takes.cut (deterministic.propagates query) error
    refine .of_course known unanswered cut (Rules.Faithful.concat correct none) ?_
    intro reading member
    obtain inside | last := List.mem_append.mp member
    · obtain ⟨value, ended, -⟩ := correct reading inside
      exact .inl (answers reading inside value ended).2
    · obtain rfl := List.mem_singleton.mp last
      exact .inr (ih requests.1 none)

def Cache.Settles (rules : Rules S) (snapshot : Snapshot S) (revision : Revision) (cache : Cache S)
    (query : S.Query) : Prop :=
  ∀ other, Relation.ReflTransGen (rules.Requests snapshot) query other →
    cache.Knows other ∧
      ∀ value, rules.Answers snapshot other value → cache.HasCurrent revision other

theorem Cache.Accounted.hasCurrent_of_requests
    (accounted : cache.Accounted (.fromScratch deterministic now input?) revision)
    (inputs : cache.input? = input?) {other : S.Query} (current : cache.HasCurrent revision query)
    (requests : rules.Requests (rules.snapshot now input?) query other) :
    cache.HasCurrent revision other := by
  obtain ⟨slot, entry, here, current⟩ := current
  obtain ⟨query', entry', below, there, reads, assigned, closed⟩ :=
    accounted.describes inputs slot ⟨query, entry, here, current⟩
  rw [here] at there
  cases there
  obtain ⟨dependency, read, named⟩ := exists_assigned assigned ((reads.requests_iff other).mp requests)
  obtain ⟨third, known, there, current⟩ := closed dependency read
  rw [query?_eq there] at named
  cases named
  exact ⟨dependency, known, there, current⟩

theorem Cache.Accounted.settles_of_hasCurrent
    (accounted : cache.Accounted (.fromScratch deterministic now input?) revision)
    (inputs : cache.input? = input?) (current : cache.HasCurrent revision query) :
    cache.Settles rules (rules.snapshot now input?) revision query := by
  intro other reached
  have current : cache.HasCurrent revision other := by
    induction reached with
    | refl => exact current
    | tail _ requests ih => exact accounted.hasCurrent_of_requests inputs ih requests
  exact ⟨current.knows, fun _ _ => current⟩

theorem Cache.Accounted.settles_of_failed
    (accounted : cache.Accounted (.fromScratch deterministic now input?) revision)
    (inputs : cache.input? = input?)
    (failed : cache.Failed rules (rules.snapshot now input?) revision [] query) :
    cache.Settles rules (rules.snapshot now input?) revision query := by
  obtain ⟨failing, isFailing, member⟩ := failed.resolve_right List.not_mem_nil
  intro other reached
  have settled : cache.HasCurrent revision other ∨ failing other := by
    induction reached with
    | refl => exact .inr member
    | tail _ requests ih =>
      obtain current | fails := ih
      · exact .inl (accounted.hasCurrent_of_requests inputs current requests)
      · obtain ⟨-, -, leads⟩ := isFailing _ fails
        exact (leads _ requests).imp_right (·.resolve_right List.not_mem_nil)
  obtain current | fails := settled
  · exact ⟨current.knows, fun _ _ => current⟩
  · obtain ⟨known, none, -⟩ := isFailing other fails
    exact ⟨known, fun value answers => absurd answers (none value)⟩

theorem Cache.Accounted.view?_of_unanswered {base : Cache S}
    (accounted : cache.Accounted (.fromScratch deterministic now input?) revision)
    (inputs : cache.input? = input?) (fate : base.Fate rules revision cache query)
    (known : cache.Knows query)
    (unanswered : ¬ ∃ value, rules.Answers (rules.snapshot now input?) query value) :
    cache.view? query = some ((base.view? query).getD (.fresh query revision)) := by
  obtain ⟨slot, here⟩ := known
  obtain ⟨entry, here⟩ := memo?_of_query? here
  have view := accounted.wellFormed.view?_eq here
  rw [fate.of_stale view, view]
  intro current
  obtain ⟨-, value, -, answers⟩ := accounted.reads_of_view? inputs view current
  exact unanswered ⟨value, answers⟩

/-- What is known of each query after requests is told by the memos before and by which queries
are reached. -/
theorem Cache.Evolves.view?_eq {base first second : Cache S} {reached : S.Query → Prop}
    {start next next' : Nat}
    (accounted : first.Accounted (.fromScratch deterministic now input?) revision)
    (accounted' : second.Accounted (.fromScratch deterministic now input?) revision)
    (inputs : first.input? = input?) (inputs' : second.input? = input?)
    (evolves : base.Evolves rules revision reached start first next)
    (evolves' : base.Evolves rules revision reached start second next')
    (settled : ∀ query, reached query → first.Knows query ∧
      ∀ value, rules.Answers (rules.snapshot now input?) query value →
        first.HasCurrent revision query)
    (settled' : ∀ query, reached query → second.Knows query ∧
      ∀ value, rules.Answers (rules.snapshot now input?) query value →
        second.HasCurrent revision query)
    (query : S.Query) : first.view? query = second.view? query := by
  by_cases isReached : reached query
  · obtain ⟨known, current⟩ := settled query isReached
    obtain ⟨known', current'⟩ := settled' query isReached
    by_cases answered : ∃ value, rules.Answers (rules.snapshot now input?) query value
    · obtain ⟨value, answers⟩ := answered
      obtain ⟨one, here, now⟩ := accounted.wellFormed.hasCurrent_iff.mp (current value answers)
      obtain ⟨two, there, now'⟩ := accounted'.wellFormed.hasCurrent_iff.mp (current' value answers)
      rw [here, there, Cache.Fate.unique accounted accounted' inputs inputs' evolves.fate
        evolves'.fate here now there now']
    · rw [accounted.view?_of_unanswered inputs (evolves.fate query) known answered,
        accounted'.view?_of_unanswered inputs' (evolves'.fate query) known' answered]
  · rw [(evolves.idle query).resolve_right isReached, (evolves'.idle query).resolve_right isReached]

end Run

namespace Cache

variable {revision : Revision} {base first second : Cache S} {start next next' : Nat}
  {inserted inserted' computed computed' : List S.Query}

/-- Caches that tell the same of each query have the same counts. -/
theorem Tally.counts_eq (tally : base.Tally revision first start next inserted computed)
    (tally' : base.Tally revision second start next' inserted' computed')
    (same : ∀ query, first.view? query = second.view? query) :
    first.size = second.size ∧ first.counts.executions = second.counts.executions ∧
      first.counts.backdates = second.counts.backdates ∧
      first.counts.evictions = second.counts.evictions ∧ next = next' := by
  have executionsOf : first.executionsOf = second.executionsOf :=
    funext fun query => by simp only [executionsOf, same]
  have isOlder : first.isOlder revision = second.isOlder revision :=
    funext fun query => by simp only [Cache.isOlder, same]
  have inserts : inserted.Perm inserted' := by
    rw [List.perm_ext_iff_of_nodup tally.nodup_inserted tally'.nodup_inserted]
    intro query
    rw [tally.mem_inserted, tally'.mem_inserted, same]
  have computes : computed.Perm computed' := by
    rw [List.perm_ext_iff_of_nodup tally.nodup_computed tally'.nodup_computed]
    intro query
    rw [tally.mem_computed, tally'.mem_computed, executionsOf]
  refine ⟨?_, ?_, ?_, ?_, ?_⟩
  · rw [tally.size, tally'.size, inserts.length_eq]
  · rw [tally.executions, tally'.executions, computes.length_eq]
  · rw [tally.backdates, tally'.backdates, isOlder, computes.countP_eq]
  · rw [tally.evictions, tally'.evictions]
  · rw [tally.identity, tally'.identity, computes.length_eq]

end Cache

namespace Context

variable {context middle after other : Context S} {readings : List (Reading S)}

inductive GetsAll (rules : Rules S) : Context S → List (Reading S) → Context S → Prop
  | nil (context : Context S) : GetsAll rules context [] context
  | cons {context middle after : Context S} {query : S.Query}
      {outcome : Except QueryError (Shared (S.Value query))} {readings : List (Reading S)} :
      context.Gets rules query outcome middle → GetsAll rules middle readings after →
        GetsAll rules context (⟨query, outcome.map (·.value)⟩ :: readings) after

/-- Contexts that differ in slots, in how often memos of the revision answered, and in the order of
what was delivered. -/
structure Alike (rules : Rules S) (context other : Context S) : Prop where
  summary? : ∀ query, context.summary? rules query = other.summary? rules query
  view? : ∀ query, context.cache.view? query = other.cache.view? query
  size : context.cache.size = other.cache.size
  executions : context.cache.counts.executions = other.cache.counts.executions
  validations : context.cache.counts.validations = other.cache.counts.validations
  backdates : context.cache.counts.backdates = other.cache.counts.backdates
  evictions : context.cache.counts.evictions = other.cache.counts.evictions
  sink : context.sink.diagnostics.Perm other.sink.diagnostics
  revision : context.revision = other.revision
  nextIdentity : context.nextIdentity = other.nextIdentity

section

variable {deterministic : rules.Deterministic environment} {now : S.World}
  {input? : (query : S.Query) → Option (S.Value query)} {query : S.Query}

theorem Answered.settles {outcome : Except QueryError (Shared (S.Value query))}
    (answered : Answered (.fromScratch deterministic now input?) query context outcome after)
    (inputs : context.cache.input? = input?) :
    after.cache.Settles rules (rules.snapshot now input?) after.revision query := by
  have accounted := answered.sound.accounted
  have inputs := answered.cache.input?.trans inputs
  cases outcome with
  | ok shared =>
    obtain ⟨slot, entry, -, here, value, now, -⟩ := answered.ok shared rfl
    exact accounted.settles_of_hasCurrent inputs ⟨slot, entry, here, by simp [value], now⟩
  | error error =>
    have failed := (answered.error error rfl).1.failed (requested_nil _ query)
    exact accounted.settles_of_failed inputs failed

/-- What requests leave: the memos are as the account says, each query is settled by the memos at
the start, and what the requests lead to is settled. -/
theorem GetsAll.settled (gets : context.GetsAll rules readings after)
    (sound : context.Sound (.fromScratch deterministic now input?) [])
    (inputs : context.cache.input? = input?) {base : Cache S} {start : Nat}
    {reached : S.Query → Prop}
    (evolves : base.Evolves rules context.revision reached start context.cache
      context.nextIdentity)
    (reaches : ∀ reading ∈ readings, ∀ other,
      Relation.ReflTransGen (rules.Requests (rules.snapshot now input?)) reading.query other →
        reached other) :
    after.Sound (.fromScratch deterministic now input?) [] ∧
      context.cache.Grows True context.revision [] after.cache ∧
      after.revision = context.revision ∧
      base.Evolves rules after.revision reached start after.cache after.nextIdentity ∧
      ∀ reading ∈ readings,
        after.cache.Settles rules (rules.snapshot now input?) after.revision reading.query := by
  induction gets with
  | nil => exact ⟨sound, .refl _, rfl, evolves, by simp⟩
  | @cons context middle after query outcome readings first rest ih =>
    have answered := first.answered sound
    obtain ⟨here, later⟩ := List.forall_mem_cons.mp reaches
    have evolves := answered.changes.evolves sound.accounted evolves here
    rw [← answered.revision] at evolves
    obtain ⟨sound', grows, revision, evolves, settles⟩ :=
      ih answered.sound (answered.cache.input?.trans inputs) evolves later
    have settled := answered.settles inputs
    rw [answered.revision] at grows revision settled
    refine ⟨sound', answered.cache.trans grows, revision, evolves, ?_⟩
    refine List.forall_mem_cons.mpr ⟨fun other reached => ?_, settles⟩
    obtain ⟨known, current⟩ := settled other reached
    rw [revision]
    exact ⟨grows.knows known, fun value answers => grows.hasCurrent (current value answers)⟩

end

end Context

/-- What the requests check together. -/
theorem Context.GetsAll.spends {deterministic : rules.Deterministic environment} {now : S.World}
    {input? : (query : S.Query) → Option (S.Value query)} {ledger : Ledger S}
    {context after : Context S} {readings : List (Reading S)}
    (gets : context.GetsAll rules readings after) (sound : ledger.Sound deterministic now input?)
    (reaches : ledger.Reaches deterministic now input? [] context)
    (keeps : ledger.Keeps after.cache) :
    ledger.Keeps context.cache ∧ ∃ failing : List (List S.Query),
      List.Forall₂ (rules.Abandons (rules.snapshot now input?)) readings failing ∧
        ledger.Spends rules context.cache after.cache
          (failing.flatten.map (ledger.weight rules)).sum := by
  induction gets with
  | nil => exact ⟨keeps, [], .nil, .refl _⟩
  | @cons context middle after query outcome readings gets rest ih =>
    have answered := gets.answered reaches.sound
    obtain ⟨first, changes⟩ := reaches.changes
    have more := answered.changes.within List.nil_suffix
    have grows := answered.cache
    rw [reaches.revision] at more grows
    have reaches' : ledger.Reaches deterministic now input? [] middle :=
      ⟨answered.sound, answered.revision.trans reaches.revision, first, changes.trans more⟩
    obtain ⟨keeps', failing, abandons, spends⟩ := ih reaches' keeps
    obtain ⟨failed, abandoned, spent⟩ := gets.spends sound reaches keeps'
    refine ⟨grows.trans keeps', failed :: failing, .cons abandoned abandons, ?_⟩
    rw [List.flatten_cons, List.map_append, List.sum_append]
    exact spent.trans spends

/-- How a request from outside ends: with what its query answers or how it fails, and with the
diagnostics it delivers. -/
inductive Rules.Ends (rules : Rules S) (snapshot : Snapshot S) :
    S.Query → Reading S × List Diagnostic → Prop
  | answered {query : S.Query} {value : S.Value query} {order : List S.Query}
      {diagnostics : List Diagnostic} : rules.Answers snapshot query value →
        rules.Replays snapshot query order diagnostics →
        Ends rules snapshot query (⟨query, .ok value⟩, diagnostics)
  | failed {query : S.Query} {error : QueryError} : rules.Fails snapshot [] query error →
      Ends rules snapshot query (⟨query, .error error⟩, [])

theorem Rules.Ends.unique (deterministic : rules.Deterministic environment)
    {snapshot : Snapshot S} {query : S.Query} {one two : Reading S × List Diagnostic}
    (first : rules.Ends snapshot query one) (second : rules.Ends snapshot query two) :
    one = two := by
  have requested : rules.Requested snapshot [] query := Context.requested_nil _ query
  cases first with
  | answered answers replays =>
    cases second with
    | answered answers' replays' => rw [answers.unique answers', (replays.unique replays').2]
    | failed fails => exact absurd answers (fails.not_answers requested _)
  | failed fails =>
    cases second with
    | answered answers => exact absurd answers (fails.not_answers requested _)
    | failed fails' => rw [fails.unique fails' requested deterministic.propagates]

theorem Rules.Ends.settles {snapshot : Snapshot S} {query : S.Query}
    {result : Reading S × List Diagnostic} (ends : rules.Ends snapshot query result) :
    ∃ depth, rules.Settles snapshot depth [] query := by
  cases ends with
  | answered answers =>
    obtain ⟨depth, settles⟩ := answers.settles
    exact ⟨depth, settles []⟩
  | failed fails => exact fails.settles (Context.requested_nil _ query)

namespace Context

variable {context middle after other : Context S} {readings : List (Reading S)} {query : S.Query}

theorem Gets.step {outcome : Except QueryError (Shared (S.Value query))}
    (gets : context.Gets rules query outcome after)
    (reachable : context.Reachable rules (SameEnvironment environment)) :
    after.Reachable rules (SameEnvironment environment) := by
  obtain ⟨depth, ran⟩ := gets
  obtain ⟨world, collects, leads⟩ := reachable
  exact ⟨world, collects, leads.tail (.request ran)⟩

theorem Reachable.snapshot_gets (deterministic : rules.Deterministic environment)
    (reachable : context.Reachable rules (SameEnvironment environment))
    {outcome : Except QueryError (Shared (S.Value query))}
    (gets : context.Gets rules query outcome after) :
    after.snapshot rules = context.snapshot rules := by
  obtain ⟨now, sound, same⟩ := reachable.fromScratch deterministic
  have answered := gets.answered sound
  exact (answered.sound.snapshot_eq answered.cache.input?).trans same

theorem Reachable.ends (deterministic : rules.Deterministic environment)
    (reachable : context.Reachable rules (SameEnvironment environment))
    {outcome : Except QueryError (Shared (S.Value query))}
    (gets : context.Gets rules query outcome after) :
    ∃ delivered,
      rules.Ends (context.snapshot rules) query (⟨query, outcome.map (·.value)⟩, delivered) ∧
        after.sink = context.sink.append delivered := by
  cases outcome with
  | ok shared =>
    obtain ⟨order, diagnostics, replays, sink⟩ := reachable.replays deterministic gets
    exact ⟨diagnostics, .answered (reachable.answers deterministic gets) replays, sink⟩
  | error error =>
    refine ⟨[], .failed (reachable.fails deterministic gets), ?_⟩
    rw [reachable.sink_of_error deterministic gets]
    simp [Sink.append]

theorem GetsAll.ends (gets : context.GetsAll rules readings after)
    (deterministic : rules.Deterministic environment)
    (reachable : context.Reachable rules (SameEnvironment environment)) :
    ∃ results : List (Reading S × List Diagnostic), results.map (·.1) = readings ∧
      (∀ result ∈ results, rules.Ends (context.snapshot rules) result.1.query result) ∧
      after.sink = context.sink.append (results.map (·.2)).flatten := by
  induction gets with
  | nil => exact ⟨[], rfl, by simp, by simp [Sink.append]⟩
  | cons first rest ih =>
    obtain ⟨delivered, ends, sink⟩ := reachable.ends deterministic first
    obtain ⟨results, same, all, sink'⟩ := ih (first.step reachable)
    rw [reachable.snapshot_gets deterministic first] at all
    refine ⟨(_, delivered) :: results, congrArg _ same, List.forall_mem_cons.mpr ⟨ends, all⟩, ?_⟩
    rw [sink', sink, Sink.append_append]
    rfl

theorem Reachable.exists_getsAll (deterministic : rules.Deterministic environment)
    (reachable : context.Reachable rules (SameEnvironment environment)) (requests : List S.Query)
    (settles : ∀ query ∈ requests, ∃ depth,
      rules.Settles (context.snapshot rules) depth [] query) :
    ∃ readings after, context.GetsAll rules readings after ∧
      readings.map (·.query) = requests := by
  induction requests generalizing context with
  | nil => exact ⟨[], context, .nil context, rfl⟩
  | cons query requests ih =>
    obtain ⟨⟨depth, here⟩, later⟩ := List.forall_mem_cons.mp settles
    obtain ⟨outcome, middle, ran⟩ := reachable.isSome_request deterministic here
    have gets : context.Gets rules query outcome middle := ⟨depth, ran⟩
    rw [← reachable.snapshot_gets deterministic gets] at later
    obtain ⟨readings, after, all, same⟩ := ih (gets.step reachable) later
    exact ⟨_ :: readings, after, .cons gets all, by rw [List.map_cons, same]⟩

/-- Which queries the requests leave without answers, and what they check in all. -/
theorem GetsAll.exists_abandoned {deterministic : rules.Deterministic environment} {now : S.World}
    {input? : (query : S.Query) → Option (S.Value query)}
    (sound : context.Sound (.fromScratch deterministic now input?) [])
    (inputs : context.cache.input? = input?) (gets : context.GetsAll rules readings after)
    {queries : Finset S.Query}
    (mem_queries : ∀ query, after.cache.isVerified context.revision query → query ∈ queries) :
    ∃ failing : List (List S.Query),
      List.Forall₂ (rules.Abandons (rules.snapshot now input?)) readings failing ∧
        Ledger.Spends ⟨context.revision, context.cache, after.cache, queries⟩ rules context.cache
          after.cache (failing.flatten.map
            (Ledger.weight ⟨context.revision, context.cache, after.cache, queries⟩ rules)).sum := by
  have start := Cache.Evolves.refl rules context.revision (fun _ => True) context.cache
    context.nextIdentity
  obtain ⟨sound', grows, revision, -⟩ := gets.settled sound inputs start fun _ _ _ _ => trivial
  have accounted := sound'.accounted
  rw [revision] at accounted
  have ends : Ledger.Sound deterministic now input?
      ⟨context.revision, context.cache, after.cache, queries⟩ :=
    ⟨sound.accounted, accounted, grows.input?.trans inputs, mem_queries⟩
  exact (gets.spends ends ⟨sound, rfl, _, .refl⟩ (.refl _)).2

/-- Requests in another order check as much, if they leave the same known of each query. -/
theorem GetsAll.validations_eq {deterministic : rules.Deterministic environment} {now : S.World}
    {input? : (query : S.Query) → Option (S.Value query)} {readings' : List (Reading S)}
    (sound : context.Sound (.fromScratch deterministic now input?) [])
    (inputs : context.cache.input? = input?) (gets : context.GetsAll rules readings after)
    (gets' : context.GetsAll rules readings' other) (perm : readings'.Perm readings)
    (same : ∀ query, other.cache.view? query = after.cache.view? query) :
    other.cache.counts.validations = after.cache.counts.validations := by
  let queries : Finset S.Query := (after.cache.liveSlots.filterMap after.cache.query?).toFinset
  have verified (query : S.Query) : other.cache.isVerified context.revision query =
      after.cache.isVerified context.revision query := Cache.isVerified_eq (same query)
  have mem_queries (query : S.Query) (verified : after.cache.isVerified context.revision query) :
      query ∈ queries := by
    obtain ⟨known, here, -⟩ := (Option.any_eq_true _ _).mp verified
    obtain ⟨slot, entry, here, -⟩ := Cache.exists_of_view? here
    refine List.mem_toFinset.mpr (List.mem_filterMap.mpr ⟨slot, ?_, Cache.query?_eq here⟩)
    rw [Cache.mem_liveSlots, here]
    rfl
  obtain ⟨failing, abandons, spends⟩ := gets.exists_abandoned sound inputs mem_queries
  obtain ⟨failing', abandons', spends'⟩ := gets'.exists_abandoned sound inputs
    fun query there => mem_queries query (verified query ▸ there)
  have unique : Relator.RightUnique (rules.Abandons (rules.snapshot now input?)) :=
    fun _ _ _ first second => first.unique second deterministic.propagates
  have permutes : failing'.Perm failing := List.rel_perm_imp unique abandons' abandons perm
  have weight : Ledger.weight ⟨context.revision, context.cache, other.cache, queries⟩ rules =
      Ledger.weight ⟨context.revision, context.cache, after.cache, queries⟩ rules :=
    Ledger.weight_eq_of_view? rfl rfl same
  have sum := (permutes.flatten.map
    (Ledger.weight ⟨context.revision, context.cache, after.cache, queries⟩ rules)).sum_nat
  simp only [Ledger.Spends, Ledger.load, weight, verified] at spends spends'
  omega

theorem Reachable.alike {readings' : List (Reading S)} (deterministic : rules.Deterministic environment)
    (reachable : context.Reachable rules (SameEnvironment environment))
    (gets : context.GetsAll rules readings after) (gets' : context.GetsAll rules readings' other)
    (perm : readings'.Perm readings)
    (sink : other.sink.diagnostics.Perm after.sink.diagnostics) : other.Alike rules after := by
  obtain ⟨now, sound, -⟩ := reachable.fromScratch deterministic
  let reached (query : S.Query) : Prop := ∃ reading ∈ readings,
    Relation.ReflTransGen (rules.Requests (rules.snapshot now context.cache.input?)) reading.query
      query
  have start := Cache.Evolves.refl rules context.revision reached context.cache
    context.nextIdentity
  obtain ⟨sound', grows, revision, evolves, settles⟩ := gets.settled sound rfl start
    fun reading member query leads => ⟨reading, member, leads⟩
  obtain ⟨sound'', grows', revision', evolves', settles'⟩ := gets'.settled sound rfl start
    fun reading member query leads => ⟨reading, perm.mem_iff.mp member, leads⟩
  rw [← revision] at revision'
  rw [revision'] at evolves' settles'
  have view? := evolves'.view?_eq (revision' ▸ sound''.accounted) sound'.accounted grows'.input?
    grows.input? evolves
    (fun query ⟨reading, member, leads⟩ => settles' reading (perm.mem_iff.mpr member) query leads)
    (fun query ⟨reading, member, leads⟩ => settles reading member query leads)
  obtain ⟨_, _, tally⟩ := evolves.tally
  obtain ⟨_, _, tally'⟩ := evolves'.tally
  obtain ⟨size, executions, backdates, evictions, nextIdentity⟩ := tally'.counts_eq tally view?
  have validations := gets.validations_eq sound rfl gets' perm view?
  refine
    { summary? := fun query => ?_, view?, size, executions, validations, backdates, evictions, sink,
      revision := revision', nextIdentity }
  rw [sound''.accounted.summary?_eq, sound'.accounted.summary?_eq, view?]

/-- The order of requests does not matter: in any order each gives the same, and leaves the same
known of each query. -/
theorem Reachable.gets_perm (deterministic : rules.Deterministic environment)
    (reachable : context.Reachable rules (SameEnvironment environment))
    (gets : context.GetsAll rules readings after) {requests : List S.Query}
    (perm : requests.Perm (readings.map (·.query))) :
    (∃ readings' after', context.GetsAll rules readings' after' ∧
      readings'.map (·.query) = requests) ∧
    ∀ readings' after', context.GetsAll rules readings' after' →
      readings'.map (·.query) = requests →
      (∀ reading ∈ readings, ∀ reading' ∈ readings', reading'.query = reading.query →
        reading' = reading) ∧
      after'.Alike rules after := by
  obtain ⟨results, rfl, ends, sink⟩ := gets.ends deterministic reachable
  rw [List.map_map] at perm
  constructor
  · refine reachable.exists_getsAll deterministic requests fun query member => ?_
    obtain ⟨result, inside, rfl⟩ := List.mem_map.mp (perm.mem_iff.mp member)
    exact (ends result inside).settles
  · rintro readings' after' gets' rfl
    obtain ⟨results', rfl, ends', sink'⟩ := gets'.ends deterministic reachable
    rw [List.map_map] at perm
    have unique : Relator.RightUnique (rules.Ends (context.snapshot rules)) :=
      fun _ _ _ first second => first.unique deterministic second
    have along {results : List (Reading S × List Diagnostic)}
        (ends : ∀ result ∈ results, rules.Ends (context.snapshot rules) result.1.query result) :
        List.Forall₂ (rules.Ends (context.snapshot rules))
          (results.map fun result => result.1.query) results :=
      List.forall₂_map_left_iff.mpr (List.forall₂_same.mpr ends)
    have permutes : results'.Perm results := List.rel_perm_imp unique (along ends') (along ends) perm
    constructor
    · intro reading member reading' member' same
      obtain ⟨result, inside, rfl⟩ := List.mem_map.mp member
      obtain ⟨result', inside', rfl⟩ := List.mem_map.mp member'
      have first := ends' result' inside'
      rw [same] at first
      rw [first.unique deterministic (ends result inside)]
    · refine reachable.alike deterministic gets gets' (permutes.map _) ?_
      rw [sink, sink']
      exact (permutes.map _).flatten.append_left _

/-- The total and the query that reads itself. -/
theorem exists_getsAll_invoice : ∃ after, Invoice.resumed.GetsAll Invoice.rules
    [⟨Invoice.Item.total, .ok (13 : Nat)⟩,
      ⟨Invoice.Item.loop, .error (.cycle ["loop", "loop"])⟩] after := by
  obtain ⟨shared, middle, gets, value⟩ := Invoice.exists_gets_total
  obtain ⟨_, alone⟩ := Invoice.exists_gets_loop
  have fails := Invoice.reachable_resumed.fails Invoice.deterministic alone
  rw [← Invoice.reachable_resumed.snapshot_gets Invoice.deterministic gets] at fails
  have reachable := gets.step Invoice.reachable_resumed
  obtain ⟨after, last⟩ := (reachable.exists_gets_error_iff Invoice.deterministic).mpr fails
  have all := GetsAll.cons gets (.cons last (.nil after))
  refine ⟨after, ?_⟩
  rw [← value]
  exact all

theorem Reachable.gets_perm_invoice : ∃ after after',
    Invoice.resumed.GetsAll Invoice.rules
      [⟨Invoice.Item.total, .ok (13 : Nat)⟩,
        ⟨Invoice.Item.loop, .error (.cycle ["loop", "loop"])⟩] after ∧
    Invoice.resumed.GetsAll Invoice.rules
      [⟨Invoice.Item.loop, .error (.cycle ["loop", "loop"])⟩,
        ⟨Invoice.Item.total, .ok (13 : Nat)⟩] after' ∧
    after'.Alike Invoice.rules after := by
  obtain ⟨after, gets⟩ := exists_getsAll_invoice
  have swap : [Invoice.Item.loop, Invoice.Item.total].Perm
      [Invoice.Item.total, Invoice.Item.loop] := .swap ..
  obtain ⟨⟨readings', after', gets', requests⟩, agrees⟩ :=
    Reachable.gets_perm Invoice.deterministic Invoice.reachable_resumed gets swap
  obtain ⟨same, alike⟩ := agrees readings' after' gets' requests
  refine ⟨after, after', gets, ?_, alike⟩
  obtain ⟨loop, rest, rfl, isLoop, last⟩ := List.map_eq_cons_iff.mp requests
  obtain ⟨total, rest, rfl, isTotal, last⟩ := List.map_eq_cons_iff.mp last
  obtain rfl := List.map_eq_nil_iff.mp last
  obtain ⟨thirteen, later⟩ := List.forall_mem_cons.mp same
  have cycle := List.forall_mem_singleton.mp later
  rw [cycle loop (by simp) isLoop, thirteen total (by simp) isTotal] at gets'
  exact gets'

end Context

end IncrementalFrontend
