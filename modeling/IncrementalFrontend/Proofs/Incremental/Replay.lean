import IncrementalFrontend.Proofs.Incremental.FreshSession

/-!
Which diagnostics a request delivers. They are those of the queries that the request leads to, each
once, from wherever the memos come.
-/
namespace IncrementalFrontend

variable {S : Signature} {rules : Rules S} {E : Type} {environment : S.World → E}

namespace Rules

variable {snapshot : Snapshot S} {query : S.Query}

inductive Reads (rules : Rules S) (snapshot : Snapshot S) :
    S.Query → List S.Query → List Diagnostic → Prop
  | input {query : S.Query} {value : S.Value query} :
      snapshot.input? query = some value → Reads rules snapshot query [] []
  | computed {query : S.Query} {value : S.Value query} {readings : List (Reading S)}
      {reports : List Diagnostic} : snapshot.input? query = none →
        (rules.compute query).Takes snapshot.Replies readings reports (.ok value) →
        (∀ reading ∈ readings, rules.Correct snapshot reading) →
        Reads rules snapshot query (Reading.firstQueries readings) reports

namespace Reads

variable {below : List S.Query} {own : List Diagnostic}

theorem answers (reads : rules.Reads snapshot query below own) :
    ∃ value, rules.Answers snapshot query value := by
  cases reads with
  | input known => exact ⟨_, .input known⟩
  | computed free takes correct => exact ⟨_, .of_correct free takes correct⟩

theorem unique {below' : List S.Query} {own' : List Diagnostic}
    (reads : rules.Reads snapshot query below own)
    (reads' : rules.Reads snapshot query below' own') :
    below = below' ∧ own = own' := by
  cases reads with
  | input known =>
    cases reads' with
    | input => exact ⟨rfl, rfl⟩
    | computed free => simp [free] at known
  | computed free takes correct =>
    cases reads' with
    | input known => simp [free] at known
    | computed _ takes' correct' =>
      obtain ⟨rfl, rfl, -⟩ := course_eq takes takes' correct correct'
      exact ⟨rfl, rfl⟩

theorem requests_iff (reads : rules.Reads snapshot query below own) (other : S.Query) :
    rules.Requests snapshot query other ↔ other ∈ below := by
  cases reads with
  | input known =>
    constructor
    · intro requests
      simp [requests.1] at known
    · exact fun member => absurd member List.not_mem_nil
  | computed free takes correct =>
    rw [Reading.mem_firstQueries]
    constructor
    · intro requests
      obtain ⟨reading, member, rfl⟩ := requests.mem takes fun reading member =>
        .inl (correct reading member)
      obtain ⟨value, answered, -⟩ := correct reading member
      exact ⟨value, Reading.mem_of_ok member answered⟩
    · rintro ⟨value, member⟩
      obtain ⟨past, rest, rfl⟩ := List.append_of_mem member
      exact ⟨free, past, _, rest, _, _, takes, fun reading member =>
        correct reading (List.mem_append_left _ member)⟩

end Reads

/-- The diagnostics of a query and of all that it leads to: each query comes once, after those it
requests, in the order of the first reads. -/
structure Replays (rules : Rules S) (snapshot : Snapshot S) (query : S.Query) (order : List S.Query)
    (diagnostics : List Diagnostic) : Prop where
  walk : Walk (rules.Reads snapshot) [] [query] order diagnostics
  nodup : order.Nodup
  mem_iff : ∀ other, other ∈ order ↔ Relation.ReflTransGen (rules.Requests snapshot) query other
  after : ∀ {before reader rest}, order = before ++ reader :: rest →
    ∀ {other}, rules.Requests snapshot reader other → other ∈ before
  own : ∃ parts, diagnostics = parts.flatten ∧
    List.Forall₂ (fun query own => ∃ below, rules.Reads snapshot query below own) order parts

theorem Replays.of_walk {order : List S.Query} {diagnostics : List Diagnostic}
    (walk : Walk (rules.Reads snapshot) [] [query] order diagnostics) :
    rules.Replays snapshot query order diagnostics := by
  have acyclic {query : S.Query} {below : List S.Query} {own : List Diagnostic}
      (reads : rules.Reads snapshot query below own) :
      ¬ Relation.TransGen (rules.Requests snapshot) query query := by
    obtain ⟨value, answers⟩ := reads.answers
    exact answers.acyclic
  refine ⟨walk, walk.nodup.1, walk.mem_iff Reads.requests_iff acyclic, ?_, walk.forall₂⟩
  intro before reader rest split other requests
  exact (walk.ordered Reads.requests_iff acyclic [] (by simp) split requests).resolve_left
    List.not_mem_nil

theorem Replays.unique {order order' : List S.Query} {diagnostics diagnostics' : List Diagnostic}
    (replays : rules.Replays snapshot query order diagnostics)
    (replays' : rules.Replays snapshot query order' diagnostics') :
    order = order' ∧ diagnostics = diagnostics' :=
  replays.walk.unique replays'.walk Reads.unique

end Rules

/-- The memos verified in the revision hold what their queries read and report. -/
theorem Cache.Accounted.describes {deterministic : rules.Deterministic environment} {now : S.World}
    {input? : (query : S.Query) → Option (S.Value query)} {revision : Revision} {cache : Cache S}
    (accounted : cache.Accounted (.fromScratch deterministic now input?) revision)
    (inputs : cache.input? = input?) :
    cache.Describes (rules.Reads (rules.snapshot now input?)) fun slot =>
      ∃ query entry, cache.memo? slot = some ⟨query, entry⟩ ∧ entry.IsCurrent revision := by
  rintro slot ⟨query, entry, here, current⟩
  have closed : ∀ dependency ∈ entry.dependencies, ∃ other known,
      cache.memo? dependency = some ⟨other, known⟩ ∧ known.IsCurrent revision := by
    intro dependency read
    obtain ⟨other, known, there, -⟩ := accounted.dependency here dependency read
    exact ⟨other, known, there, accounted.dependency_isCurrent here current.2 read there⟩
  obtain ⟨shared, value⟩ := Option.isSome_iff_exists.mp current.1
  cases origin : entry.origin with
  | input =>
    obtain ⟨-, dependencies, diagnostics⟩ := accounted.ofInput here origin
    refine ⟨query, entry, [], here, ?_, by simp [dependencies], closed⟩
    rw [diagnostics]
    refine .input (show input? query = some shared.value from ?_)
    rw [← inputs]
    exact (input?_eq_some_iff accounted.wellFormed).mpr ⟨slot, entry, here, origin, by simp [value]⟩
  | derived =>
    obtain ⟨replies, readings, records⟩ := accounted.recorded here origin value
    refine ⟨query, entry, _, here, ?_, records.dependencies, closed⟩
    have free := accounted.free_of_derived here origin
    have checked : cache.Checked revision entry.verifiedAt entry.dependencies := by
      intro dependency read
      obtain ⟨other, known, there, isCurrent⟩ := closed dependency read
      refine ⟨other, known, there, isCurrent, ?_⟩
      rw [current.2, ← isCurrent.2]
      exact accounted.changedAt_le there
    have takes := records.takes
    rw [records.now current.2] at takes
    refine .computed free takes fun reading member => ?_
    obtain ⟨known, answered⟩ := takes.answered (deterministic.propagates query) member
    obtain ⟨dependency, read, assigned⟩ :=
      records.exists_dependency (Reading.mem_of_ok member answered)
    exact ⟨known, answered, accounted.answer_of_checked records checked
      (Reading.mem_of_ok member answered) read assigned⟩

namespace Context

variable {context fresh after : Context S} {query : S.Query}

theorem Reachable.replays (deterministic : rules.Deterministic environment)
    (reachable : context.Reachable rules (SameEnvironment environment))
    {shared : Shared (S.Value query)} (gets : context.Gets rules query (.ok shared) after) :
    ∃ order diagnostics, rules.Replays (context.snapshot rules) query order diagnostics ∧
      after.sink = context.sink.append diagnostics := by
  obtain ⟨now, sound, same⟩ := reachable.fromScratch deterministic
  have answered := gets.answered sound
  obtain ⟨slot, entry, diagnostics, here, value, current, delivered, sink⟩ := answered.ok shared rfl
  have accounted := answered.sound.accounted
  have describes := accounted.describes answered.cache.input?
  obtain ⟨order, diagnostics', walk, delivered'⟩ := Cache.diagnosticsBelow_eq _ _
    accounted.wellFormed describes ⟨query, entry, here, by simp [value], current⟩
    (Cache.query?_eq here)
  rw [delivered] at delivered'
  cases delivered'
  rw [same] at walk
  exact ⟨order, diagnostics, .of_walk walk, sink⟩

theorem Reachable.sink_of_error (deterministic : rules.Deterministic environment)
    (reachable : context.Reachable rules (SameEnvironment environment)) {error : QueryError}
    (gets : context.Gets rules query (.error error) after) : after.sink = context.sink := by
  obtain ⟨now, sound, -⟩ := reachable.fromScratch deterministic
  exact ((gets.answered sound).error error rfl).2

/-- A request delivers the same diagnostics as in a new session with the same inputs: those of the
queries that it leads to, each once and after those it requests. A request that fails delivers
none. -/
theorem Reachable.diagnostics_eq_fresh (deterministic : rules.Deterministic environment)
    (reachable : context.Reachable rules (SameEnvironment environment))
    (isFresh : IsFresh rules environment context fresh) (query : S.Query) :
    (∀ shared after, context.Gets rules query (.ok shared) after →
      ∃ order diagnostics, rules.Replays (context.snapshot rules) query order diagnostics ∧
        after.sink = context.sink.append diagnostics ∧
        (∃ shared' after', fresh.Gets rules query (.ok shared') after') ∧
        ∀ outcome after', fresh.Gets rules query outcome after' →
          after'.sink = fresh.sink.append diagnostics) ∧
    ∀ error after, context.Gets rules query (.error error) after → after.sink = context.sink := by
  have same := isFresh.snapshot_eq deterministic
  refine ⟨?_, fun error after gets => reachable.sink_of_error deterministic gets⟩
  intro shared after gets
  obtain ⟨order, diagnostics, replays, sink⟩ := reachable.replays deterministic gets
  have answers := reachable.answers deterministic gets
  rw [← same] at answers
  obtain ⟨shared', after', gets', -⟩ :=
    (isFresh.reachable.exists_gets_ok_iff deterministic).mpr answers
  refine ⟨order, diagnostics, replays, sink, ⟨shared', after', gets'⟩, ?_⟩
  intro outcome last ended
  cases outcome with
  | ok shared'' =>
    obtain ⟨order', diagnostics', replays', sink'⟩ := isFresh.reachable.replays deterministic ended
    rw [same] at replays'
    rw [(replays.unique replays').2]
    exact sink'
  | error error =>
    have equal := isFresh.reachable.eq_of_gets_error deterministic reachable same.symm ended gets
    cases equal

theorem Reachable.diagnostics_eq_fresh_invoice : ∃ shared after shared' after' diagnostics,
    Invoice.resumed.Gets Invoice.rules Invoice.Item.total (.ok shared) after ∧
      Invoice.renewed.Gets Invoice.rules Invoice.Item.total (.ok shared') after' ∧
      after.sink = Invoice.resumed.sink.append diagnostics ∧
      after'.sink = Invoice.renewed.sink.append diagnostics := by
  obtain ⟨shared, after, gets, -⟩ := Invoice.exists_gets_total
  have agrees := Reachable.diagnostics_eq_fresh Invoice.deterministic Invoice.reachable_resumed
    Invoice.isFresh_renewed Invoice.Item.total
  obtain ⟨_, diagnostics, -, sink, ⟨shared', after', gets'⟩, same⟩ := agrees.1 shared after gets
  exact ⟨shared, after, shared', after', diagnostics, gets, gets', sink, same _ after' gets'⟩

end Context

end IncrementalFrontend
