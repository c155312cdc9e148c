import Mathlib.Data.Finset.Card
import Mathlib.Data.List.Chain
import Mathlib.Data.Set.Finite.Basic
import Mathlib.Logic.Relation
import IncrementalFrontend.Proofs.Incremental.Account

/-!
What queries answer without a cache. A snapshot fixes the inputs and the replies of the world; a
query then has one answer, or fails with one error that depends on the queries that led to it.
-/
namespace IncrementalFrontend

structure Snapshot (S : Signature) where
  reply : (request : S.Request) → S.Reply request
  input? : (query : S.Query) → Option (S.Value query)

def Snapshot.Replies {S : Signature} (snapshot : Snapshot S) (request : S.Request)
    (reply : S.Reply request) : Prop :=
  reply = snapshot.reply request

namespace Rules

variable {S : Signature} (rules : Rules S) (snapshot : Snapshot S)

/-- The answer of a query: its input, or what it computes from the answers of other queries. -/
inductive Answers : (query : S.Query) → S.Value query → Prop
  | input {query : S.Query} {value : S.Value query} :
      snapshot.input? query = some value → Answers query value
  | computed {query : S.Query} {value : S.Value query} {readings : List (Reading S)}
      {reports : List Diagnostic} :
      snapshot.input? query = none →
        (rules.compute query).Takes snapshot.Replies readings reports (.ok value) →
        (∀ reading ∈ readings, reading.isAnswered) →
        (∀ reading ∈ readings, ∀ value, reading.outcome = .ok value → Answers reading.query value) →
        Answers query value

def Correct (reading : Reading S) : Prop :=
  ∃ value, reading.outcome = .ok value ∧ rules.Answers snapshot reading.query value

def Faithful (reading : Reading S) : Prop :=
  rules.Correct snapshot reading ∨
    ∃ error, reading.outcome = .error error ∧ ∀ value, ¬ rules.Answers snapshot reading.query value

def Requests (query other : S.Query) : Prop :=
  snapshot.input? query = none ∧ ∃ past outcome rest reports ending,
    (rules.compute query).Takes snapshot.Replies (past ++ ⟨other, outcome⟩ :: rest) reports ending ∧
      ∀ reading ∈ past, rules.Correct snapshot reading

/-- How a query fails that is requested along a path of queries, the innermost first. -/
inductive Fails : List S.Query → S.Query → QueryError → Prop
  | repeated {path : List S.Query} {query : S.Query} :
      snapshot.input? query = none → query ∈ path →
        Fails path query (.cycle (rules.cycleLabels path query))
  | raised {path : List S.Query} {query : S.Query} {error : QueryError}
      {readings : List (Reading S)} {reports : List Diagnostic} :
      snapshot.input? query = none → query ∉ path →
        (rules.compute query).Takes snapshot.Replies readings reports (.error error) →
        (∀ reading ∈ readings, rules.Correct snapshot reading) → Fails path query error
  | passed {path : List S.Query} {query other : S.Query} {error : QueryError}
      {past : List (Reading S)} {reports : List Diagnostic} :
      snapshot.input? query = none → query ∉ path →
        (rules.compute query).Takes snapshot.Replies (past ++ [⟨other, .error error⟩]) reports
          (.error error) →
        (∀ reading ∈ past, rules.Correct snapshot reading) →
        Fails (query :: path) other error → Fails path query error

inductive FailsThrough : List S.Query → S.Query → QueryError → List S.Query → Prop
  | repeated {path : List S.Query} {query : S.Query} :
      snapshot.input? query = none → query ∈ path →
        FailsThrough path query (.cycle (rules.cycleLabels path query)) []
  | raised {path : List S.Query} {query : S.Query} {error : QueryError}
      {readings : List (Reading S)} {reports : List Diagnostic} :
      snapshot.input? query = none → query ∉ path →
        (rules.compute query).Takes snapshot.Replies readings reports (.error error) →
        (∀ reading ∈ readings, rules.Correct snapshot reading) →
        FailsThrough path query error [query]
  | passed {path : List S.Query} {query other : S.Query} {error : QueryError}
      {past : List (Reading S)} {reports : List Diagnostic} {failing : List S.Query} :
      snapshot.input? query = none → query ∉ path →
        (rules.compute query).Takes snapshot.Replies (past ++ [⟨other, .error error⟩]) reports
          (.error error) →
        (∀ reading ∈ past, rules.Correct snapshot reading) →
        FailsThrough (query :: path) other error failing →
        FailsThrough path query error (query :: failing)

def RaisedBy (query : S.Query) (error : QueryError) : Prop :=
  snapshot.input? query = none ∧ ∃ readings reports,
    (rules.compute query).Takes snapshot.Replies readings reports (.error error) ∧
      ∀ reading ∈ readings, rules.Correct snapshot reading

structure IsCycle (first : S.Query) (rest : List S.Query) : Prop where
  nodup : (first :: rest).Nodup
  requests : (first :: rest ++ [first]).IsChain (rules.Requests snapshot)

/-- Requests from a query nest less deeply than a number before they repeat. -/
def Settles : Nat → List S.Query → S.Query → Prop
  | 0, _, _ => False
  | depth + 1, path, query =>
    query ∉ path →
      ∀ other, rules.Requests snapshot query other → Settles depth (query :: path) other

def Requested (path : List S.Query) (query : S.Query) : Prop :=
  (query :: path).IsChain fun inner outer => rules.Requests snapshot outer inner

/-- Replies depend on an environment that requests do not change. -/
structure RepliesBy {E : Type} (environment : S.World → E) : Prop where
  environment_serve : ∀ request world,
    environment (rules.serve request world).2 = environment world
  reply_eq : ∀ request world other, environment world = environment other →
    (rules.serve request world).1 = (rules.serve request other).1

/-- What the engine relies on: replies depend on an environment, only volatile queries notice it,
errors are passed on, and a value is unchanged if it is equal. -/
structure Deterministic {E : Type} (environment : S.World → E) : Prop
    extends RepliesBy rules environment where
  steady : ∀ query, rules.isVolatile query = false → ∀ world other readings reports ending,
    (rules.compute query).Takes (rules.RepliesIn world) readings reports ending →
      (rules.compute query).Takes (rules.RepliesIn other) readings reports ending
  propagates : ∀ query, (rules.compute query).Propagates
  isUnchanged_iff : ∀ query old new, rules.isUnchanged query old new = true ↔ old = new

variable {rules snapshot}

theorem Answers.of_correct {query : S.Query} {value : S.Value query} {readings : List (Reading S)}
    {reports : List Diagnostic} (free : snapshot.input? query = none)
    (takes : (rules.compute query).Takes snapshot.Replies readings reports (.ok value))
    (correct : ∀ reading ∈ readings, rules.Correct snapshot reading) :
    rules.Answers snapshot query value := by
  refine .computed free takes ?_ ?_
  · intro reading member
    obtain ⟨known, answered, -⟩ := correct reading member
    simp [Reading.isAnswered, answered]
  · intro reading member other answered
    obtain ⟨known, outcome, answers⟩ := correct reading member
    rw [outcome] at answered
    cases answered
    exact answers

theorem Correct.of_isAnswered {reading : Reading S} (answered : reading.isAnswered)
    (below : ∀ value, reading.outcome = .ok value → rules.Answers snapshot reading.query value) :
    rules.Correct snapshot reading := by
  cases outcome : reading.outcome with
  | ok known => exact ⟨known, outcome, below known outcome⟩
  | error error => simp [Reading.isAnswered, outcome] at answered

theorem correct_before {α : Type} {computation : Computation S α}
    {replies : (request : S.Request) → S.Reply request → Prop} {past rest : List (Reading S)}
    {reading : Reading S} {reports : List Diagnostic} {ending : Except QueryError α}
    (takes : computation.Takes replies (past ++ reading :: rest) reports ending)
    (propagates : computation.Propagates)
    (answers : ∀ earlier ∈ past, ∀ value, earlier.outcome = .ok value →
      rules.Answers snapshot earlier.query value) :
    ∀ earlier ∈ past, rules.Correct snapshot earlier := by
  intro earlier member
  obtain ⟨value, answered⟩ := takes.answered_before propagates member
  exact ⟨value, answered, answers earlier member value answered⟩

theorem Answers.course {query : S.Query} {value : S.Value query}
    (answers : rules.Answers snapshot query value) (free : snapshot.input? query = none) :
    ∃ readings reports,
      (rules.compute query).Takes snapshot.Replies readings reports (.ok value) ∧
        ∀ reading ∈ readings, rules.Correct snapshot reading := by
  cases answers with
  | input known => simp [free] at known
  | @computed _ _ readings reports _ takes answered below =>
    exact ⟨readings, reports, takes, fun reading member =>
      .of_isAnswered (answered reading member) (below reading member)⟩

theorem Snapshot.replies_functional (request : S.Request) (reply other : S.Reply request)
    (first : snapshot.Replies request reply) (second : snapshot.Replies request other) :
    reply = other :=
  first.trans second.symm

theorem course_unique {α : Type} {computation : Computation S α}
    {readings readings' : List (Reading S)}
    {reports reports' : List Diagnostic} {ending ending' : Except QueryError α}
    (takes : computation.Takes snapshot.Replies readings reports ending)
    (takes' : computation.Takes snapshot.Replies readings' reports' ending')
    (agree : ∀ query value value', ⟨query, .ok value⟩ ∈ readings → ⟨query, .ok value'⟩ ∈ readings' →
      value = value')
    (answered : ∀ reading ∈ readings, reading.isAnswered)
    (answered' : ∀ reading ∈ readings', reading.isAnswered) :
    readings = readings' ∧ reports = reports' ∧ ending = ending' := by
  obtain same | ⟨past, query, outcome, outcome', rest, rest', differ, rfl, rfl⟩ :=
    takes.compare takes' Snapshot.replies_functional
  · exact same
  · have first := answered ⟨query, outcome⟩ (by simp)
    have second := answered' ⟨query, outcome'⟩ (by simp)
    cases outcome with
    | error => simp [Reading.isAnswered] at first
    | ok value =>
      cases outcome' with
      | error => simp [Reading.isAnswered] at second
      | ok value' =>
        obtain rfl := agree query value value' (by simp) (by simp)
        exact absurd rfl differ

theorem Answers.unique {query : S.Query} {value other : S.Value query}
    (first : rules.Answers snapshot query value) (second : rules.Answers snapshot query other) :
    value = other := by
  induction first with
  | input known =>
    cases second with
    | input known' => exact Option.some.inj (known.symm.trans known')
    | computed free => simp [free] at known
  | computed free takes answered below ih =>
    cases second with
    | input known => simp [free] at known
    | computed _ takes' answered' below' =>
      obtain ⟨-, -, same⟩ := course_unique takes takes'
        (fun query value value' here there =>
          ih _ here value rfl (below' _ there value' rfl)) answered answered'
      exact Except.ok.inj same

theorem Correct.isAnswered {reading : Reading S} (correct : rules.Correct snapshot reading) :
    reading.isAnswered := by
  obtain ⟨value, outcome, -⟩ := correct
  simp [Reading.isAnswered, outcome]

theorem Correct.unique {query : S.Query} {outcome outcome' : Except QueryError (S.Value query)}
    (first : rules.Correct snapshot ⟨query, outcome⟩)
    (second : rules.Correct snapshot ⟨query, outcome'⟩) : outcome = outcome' := by
  obtain ⟨value, ended, answers⟩ := first
  obtain ⟨value', ended', answers'⟩ := second
  rw [show outcome = _ from ended, show outcome' = _ from ended', answers.unique answers']

/-- Two courses whose reads are correct are the same. -/
theorem course_eq {α : Type} {computation : Computation S α} {readings readings' : List (Reading S)}
    {reports reports' : List Diagnostic} {ending ending' : Except QueryError α}
    (takes : computation.Takes snapshot.Replies readings reports ending)
    (takes' : computation.Takes snapshot.Replies readings' reports' ending')
    (correct : ∀ reading ∈ readings, rules.Correct snapshot reading)
    (correct' : ∀ reading ∈ readings', rules.Correct snapshot reading) :
    readings = readings' ∧ reports = reports' ∧ ending = ending' := by
  refine course_unique takes takes' ?_ (fun reading member => (correct reading member).isAnswered)
    fun reading member => (correct' reading member).isAnswered
  intro query value value' member member'
  exact Except.ok.inj ((correct _ member).unique (correct' _ member'))

/-- Two faithful courses of a computation are the same, or end with the same failing read. -/
theorem course_compare {α : Type} {computation : Computation S α}
    {readings readings' : List (Reading S)} {reports reports' : List Diagnostic}
    {ending ending' : Except QueryError α}
    (takes : computation.Takes snapshot.Replies readings reports ending)
    (takes' : computation.Takes snapshot.Replies readings' reports' ending')
    (faithful : ∀ reading ∈ readings, rules.Faithful snapshot reading)
    (faithful' : ∀ reading ∈ readings', rules.Faithful snapshot reading)
    (propagates : computation.Propagates) :
    (readings = readings' ∧ reports = reports' ∧ ending = ending') ∨
      ∃ past query error error', readings = past ++ [⟨query, .error error⟩] ∧
        readings' = past ++ [⟨query, .error error'⟩] := by
  obtain same | ⟨past, query, outcome, outcome', rest, rest', differ, rfl, rfl⟩ :=
    takes.compare takes' Snapshot.replies_functional
  · exact .inl same
  · have first := faithful ⟨query, outcome⟩ (by simp)
    have second := faithful' ⟨query, outcome'⟩ (by simp)
    obtain correct | ⟨error, failed, none⟩ := first
    · obtain correct' | ⟨error', failed', none'⟩ := second
      · exact absurd (correct.unique correct') differ
      · obtain ⟨value, -, answers⟩ := correct
        exact absurd answers (none' value)
    · obtain ⟨value, -, answers⟩ | ⟨error', failed', none'⟩ := second
      · exact absurd answers (none value)
      · obtain ⟨rfl, -⟩ := takes.error_last propagates rfl failed
        obtain ⟨rfl, -⟩ := takes'.error_last propagates rfl failed'
        obtain rfl : outcome = .error error := failed
        obtain rfl : outcome' = .error error' := failed'
        exact .inr ⟨past, query, error, error', rfl, rfl⟩

/-- A query requests only what a faithful course of it reads. -/
theorem Requests.mem {query other : S.Query} (requests : rules.Requests snapshot query other)
    {readings : List (Reading S)} {reports : List Diagnostic}
    {ending : Except QueryError (S.Value query)}
    (takes : (rules.compute query).Takes snapshot.Replies readings reports ending)
    (faithful : ∀ reading ∈ readings, rules.Faithful snapshot reading) :
    ∃ reading ∈ readings, reading.query = other := by
  obtain ⟨-, past, outcome, rest, reports', ending', takes', correct⟩ := requests
  obtain ⟨rfl, -, -⟩ | ⟨common, third, a, b, rest₁, rest₂, differ, rfl, split⟩ :=
    takes.compare takes' Snapshot.replies_functional
  · exact ⟨⟨other, outcome⟩, by simp, rfl⟩
  · obtain ⟨more, rfl, tail⟩ | ⟨more, rfl, tail⟩ := List.append_eq_append_iff.mp split
    · cases more with
      | nil =>
        cases tail
        exact ⟨⟨other, a⟩, by simp, rfl⟩
      | cons first more =>
        cases tail
        exact ⟨⟨other, outcome⟩, by simp, rfl⟩
    · cases more with
      | nil =>
        cases tail
        exact ⟨⟨other, a⟩, by simp, rfl⟩
      | cons first more =>
        cases tail
        have answered := correct ⟨third, b⟩ (by simp)
        obtain correct' | ⟨-, -, none⟩ := faithful ⟨third, a⟩ (by simp)
        · exact absurd (correct'.unique answered) differ
        · obtain ⟨value, -, answers⟩ := answered
          exact absurd answers (none value)

theorem Answers.requests {query other : S.Query} {value : S.Value query}
    (answers : rules.Answers snapshot query value)
    (requests : rules.Requests snapshot query other) :
    ∃ known, rules.Answers snapshot other known := by
  obtain ⟨readings, reports, takes, correct⟩ := answers.course requests.1
  obtain ⟨reading, member, rfl⟩ := requests.mem takes fun reading member =>
    .inl (correct reading member)
  obtain ⟨known, -, below⟩ := correct reading member
  exact ⟨known, below⟩

theorem Answers.acc {query : S.Query} {value : S.Value query}
    (answers : rules.Answers snapshot query value) :
    Acc (fun inner outer => rules.Requests snapshot outer inner) query := by
  induction answers with
  | input known =>
    refine ⟨_, fun other requests => ?_⟩
    simp [requests.1] at known
  | computed free takes answered below ih =>
    refine ⟨_, fun other requests => ?_⟩
    have correct := fun reading member =>
      Correct.of_isAnswered (answered reading member) (below reading member)
    obtain ⟨reading, member, rfl⟩ := requests.mem takes fun reading member =>
      .inl (correct reading member)
    obtain ⟨known, outcome, -⟩ := correct reading member
    exact ih reading member known outcome

theorem Answers.acyclic {query : S.Query} {value : S.Value query}
    (answers : rules.Answers snapshot query value) :
    ¬ Relation.TransGen (rules.Requests snapshot) query query := by
  intro cycle
  have acc := answers.acc.transGen
  rw [← Relation.transGen_swap] at cycle
  clear answers value
  induction acc with
  | intro query _ ih => exact ih query cycle cycle

theorem Requested.transGen {path : List S.Query} {query outer : S.Query}
    (requested : rules.Requested snapshot path query) (member : outer ∈ path) :
    Relation.TransGen (rules.Requests snapshot) outer query := by
  induction path generalizing query with
  | nil => simp at member
  | cons next path ih =>
    obtain ⟨requests, above⟩ := List.isChain_cons_cons.mp requested
    obtain rfl | later := List.mem_cons.mp member
    · exact .single requests
    · exact .tail (ih above later) requests

theorem Requested.cons {path : List S.Query} {query other : S.Query}
    (requested : rules.Requested snapshot path query)
    (requests : rules.Requests snapshot query other) :
    rules.Requested snapshot (query :: path) other :=
  List.isChain_cons_cons.mpr ⟨requests, requested⟩

theorem Answers.not_mem_path {path : List S.Query} {query : S.Query} {value : S.Value query}
    (answers : rules.Answers snapshot query value)
    (requested : rules.Requested snapshot path query) :
    query ∉ path :=
  fun member => answers.acyclic (requested.transGen member)

theorem Requests.of_last {query other : S.Query} {past : List (Reading S)}
    {outcome : Except QueryError (S.Value other)} {reports : List Diagnostic}
    {ending : Except QueryError (S.Value query)} (free : snapshot.input? query = none)
    (takes : (rules.compute query).Takes snapshot.Replies (past ++ [⟨other, outcome⟩]) reports
      ending)
    (correct : ∀ reading ∈ past, rules.Correct snapshot reading) :
    rules.Requests snapshot query other :=
  ⟨free, past, outcome, [], reports, ending, takes, correct⟩

theorem Correct.ne_error {reading : Reading S} (correct : rules.Correct snapshot reading)
    (error : QueryError) : reading.outcome ≠ .error error := by
  obtain ⟨value, outcome, -⟩ := correct
  simp [outcome]

theorem Fails.not_answers {path : List S.Query} {query : S.Query} {error : QueryError}
    (fails : rules.Fails snapshot path query error)
    (requested : rules.Requested snapshot path query) (value : S.Value query) :
    ¬ rules.Answers snapshot query value := by
  induction fails with
  | repeated free member => exact fun answers => answers.not_mem_path requested member
  | raised free fresh takes correct =>
    intro answers
    obtain ⟨readings, reports, takes', correct'⟩ := answers.course free
    obtain ⟨-, -, same⟩ := course_eq takes takes' correct correct'
    cases same
  | passed free fresh takes correct below ih =>
    intro answers
    have requests := Requests.of_last free takes correct
    obtain ⟨known, inner⟩ := answers.requests requests
    exact ih (requested.cons requests) known inner

theorem Faithful.concat {past : List (Reading S)} {other : S.Query} {error : QueryError}
    (correct : ∀ reading ∈ past, rules.Correct snapshot reading)
    (none : ∀ value, ¬ rules.Answers snapshot other value) :
    ∀ reading ∈ past ++ [⟨other, .error error⟩], rules.Faithful snapshot reading := by
  intro reading member
  obtain before | last := List.mem_append.mp member
  · exact .inl (correct reading before)
  · obtain rfl := List.mem_singleton.mp last
    exact .inr ⟨error, rfl, none⟩

/-- A course whose last read fails rules out one whose reads are all answered. -/
theorem Faithful.excludes {α : Type} {computation : Computation S α} {other : S.Query}
    {error : QueryError} {past readings : List (Reading S)} {reports reports' : List Diagnostic}
    {ending ending' : Except QueryError α}
    (takes : computation.Takes snapshot.Replies (past ++ [⟨other, .error error⟩]) reports ending)
    (correct : ∀ reading ∈ past, rules.Correct snapshot reading)
    (none : ∀ value, ¬ rules.Answers snapshot other value)
    (takes' : computation.Takes snapshot.Replies readings reports' ending')
    (correct' : ∀ reading ∈ readings, rules.Correct snapshot reading)
    (propagates : computation.Propagates) : False := by
  obtain ⟨rfl, -, -⟩ | ⟨before, third, first, second, -, rfl⟩ :=
    course_compare takes takes' (Faithful.concat correct none)
      (fun reading member => .inl (correct' reading member)) propagates
  · exact (correct' ⟨other, .error error⟩ (by simp)).ne_error error rfl
  · exact (correct' ⟨third, .error second⟩ (by simp)).ne_error second rfl

theorem FailsThrough.fails {path failing : List S.Query} {query : S.Query} {error : QueryError}
    (through : rules.FailsThrough snapshot path query error failing) :
    rules.Fails snapshot path query error := by
  induction through with
  | repeated free member => exact .repeated free member
  | raised free fresh takes correct => exact .raised free fresh takes correct
  | passed free fresh takes correct _ ih => exact .passed free fresh takes correct ih

theorem Fails.exists_through {path : List S.Query} {query : S.Query} {error : QueryError}
    (fails : rules.Fails snapshot path query error) :
    ∃ failing, rules.FailsThrough snapshot path query error failing := by
  induction fails with
  | repeated free member => exact ⟨_, .repeated free member⟩
  | raised free fresh takes correct => exact ⟨_, .raised free fresh takes correct⟩
  | passed free fresh takes correct _ ih =>
    obtain ⟨failing, through⟩ := ih
    exact ⟨_, .passed free fresh takes correct through⟩

theorem FailsThrough.unique {path failing failing' : List S.Query} {query : S.Query}
    {error other : QueryError} (first : rules.FailsThrough snapshot path query error failing)
    (second : rules.FailsThrough snapshot path query other failing')
    (requested : rules.Requested snapshot path query)
    (propagates : ∀ query, (rules.compute query).Propagates) :
    error = other ∧ failing = failing' := by
  -- Both failures follow one course, since all reads before the failing one are answered.
  induction first generalizing failing' with
  | repeated free member =>
    cases second with
    | repeated => exact ⟨rfl, rfl⟩
    | raised _ fresh => exact absurd member fresh
    | passed _ fresh => exact absurd member fresh
  | raised free fresh takes correct =>
    cases second with
    | repeated _ member => exact absurd member fresh
    | raised _ _ takes' correct' =>
      obtain ⟨-, -, same⟩ := course_eq takes takes' correct correct'
      exact ⟨Except.error.inj same, rfl⟩
    | passed _ _ takes' correct' below =>
      have none := below.fails.not_answers (requested.cons (.of_last free takes' correct'))
      exact (Faithful.excludes takes' correct' none takes correct (propagates _)).elim
  | passed free fresh takes correct below ih =>
    have requests := Requests.of_last free takes correct
    have none := below.fails.not_answers (requested.cons requests)
    cases second with
    | repeated _ member => exact absurd member fresh
    | raised _ _ takes' correct' =>
      exact (Faithful.excludes takes correct none takes' correct' (propagates _)).elim
    | passed _ _ takes' correct' below' =>
      have none' := below'.fails.not_answers (requested.cons (.of_last free takes' correct'))
      obtain ⟨same, -, -⟩ | ⟨before, third, first, second, last, last'⟩ :=
        course_compare takes takes' (Faithful.concat correct none)
          (Faithful.concat correct' none') (propagates _)
      · obtain ⟨-, equal⟩ := List.append_inj' same rfl
        cases equal
        obtain ⟨-, rest⟩ := ih below' (requested.cons requests)
        exact ⟨rfl, congrArg _ rest⟩
      · obtain ⟨-, equal⟩ := List.append_inj' last rfl
        cases equal
        obtain ⟨-, equal⟩ := List.append_inj' last' rfl
        cases equal
        obtain ⟨same, rest⟩ := ih below' (requested.cons requests)
        exact ⟨same, congrArg _ rest⟩

theorem Fails.unique {path : List S.Query} {query : S.Query} {error other : QueryError}
    (first : rules.Fails snapshot path query error) (second : rules.Fails snapshot path query other)
    (requested : rules.Requested snapshot path query)
    (propagates : ∀ query, (rules.compute query).Propagates) : error = other := by
  obtain ⟨_, through⟩ := first.exists_through
  obtain ⟨_, through'⟩ := second.exists_through
  exact (through.unique through' requested propagates).1

/-- An error is raised by a query that a request leads to, or reports a cycle of such queries. -/
theorem Fails.raised_or_cycle {path : List S.Query} {query : S.Query} {error : QueryError}
    (fails : rules.Fails snapshot path query error)
    (requested : rules.Requested snapshot path query)
    (nodup : path.Nodup) :
    (∃ origin, Relation.ReflTransGen (rules.Requests snapshot) query origin ∧
      rules.RaisedBy snapshot origin error) ∨
      ∃ first rest, rules.IsCycle snapshot first rest ∧
        error = .cycle ((first :: rest ++ [first]).map rules.label) ∧
        ∀ member ∈ first :: rest,
          member ∈ path ∨ Relation.ReflTransGen (rules.Requests snapshot) query member := by
  -- The path grows by a new query at each failing read, so it has no repetition where it closes.
  induction fails with
  | @repeated path query free member =>
    obtain ⟨before, after, split⟩ := List.append_of_mem (List.mem_reverse.mpr member)
    have reversed : (before ++ query :: after).Nodup := split ▸ List.nodup_reverse.mpr nodup
    have first : ∀ other ∈ before, other ≠ query := by
      rintro other inside rfl
      exact (List.nodup_append.mp reversed).2.2 other inside other (by simp) rfl
    have rest : path.reverse.dropWhile (· ≠ query) = query :: after := by
      rw [split, List.dropWhile_append_of_pos (by simpa using first)]
      simp
    have chain : (before ++ (query :: after ++ [query])).IsChain (rules.Requests snapshot) := by
      have := List.isChain_reverse.mpr requested
      rwa [List.reverse_cons, split, List.append_assoc] at this
    refine .inr ⟨query, after, ⟨(List.nodup_append.mp reversed).2.1, chain.right_of_append⟩, ?_, ?_⟩
    · rw [cycleLabels, rest]
    · intro other inside
      refine .inl (List.mem_reverse.mp ?_)
      rw [split]
      exact List.mem_append_right _ inside
  | @raised path query error readings reports free fresh takes correct =>
    exact .inl ⟨query, .refl, free, readings, reports, takes, correct⟩
  | @passed path query other error past reports free fresh takes correct below ih =>
    have requests := Requests.of_last free takes correct
    obtain ⟨origin, reached, raised⟩ | ⟨first, rest, isCycle, labels, members⟩ :=
      ih (requested.cons requests) (List.nodup_cons.mpr ⟨fresh, nodup⟩)
    · exact .inl ⟨origin, .head requests reached, raised⟩
    · refine .inr ⟨first, rest, isCycle, labels, ?_⟩
      intro member inside
      obtain above | reached := members member inside
      · obtain rfl | outer := List.mem_cons.mp above
        · exact .inr .refl
        · exact .inl outer
      · exact .inr (.head requests reached)

theorem Settles.mono {depth more : Nat} {path : List S.Query} {query : S.Query}
    (settles : rules.Settles snapshot depth path query) (le : depth ≤ more) :
    rules.Settles snapshot more path query := by
  induction depth generalizing more path query with
  | zero => exact settles.elim
  | succ depth ih =>
    obtain ⟨more, rfl⟩ := Nat.exists_eq_add_of_lt (Nat.lt_of_succ_le le)
    intro fresh other requests
    exact ih (settles fresh other requests) (by omega)

theorem exists_common_bound {α : Type} {bounded : Nat → α → Prop}
    (mono : ∀ {small large a}, bounded small a → small ≤ large → bounded large a) (list : List α)
    (each : ∀ a ∈ list, ∃ bound, bounded bound a) : ∃ bound, ∀ a ∈ list, bounded bound a := by
  induction list with
  | nil => exact ⟨0, by simp⟩
  | cons head rest ih =>
    obtain ⟨first, here⟩ := each head (by simp)
    obtain ⟨others, later⟩ := ih fun a member => each a (List.mem_cons_of_mem _ member)
    refine ⟨max first others, ?_⟩
    intro a member
    obtain rfl | inside := List.mem_cons.mp member
    · exact mono here (by omega)
    · exact mono (later a inside) (by omega)

theorem Answers.settles {query : S.Query} {value : S.Value query}
    (answers : rules.Answers snapshot query value) :
    ∃ depth, ∀ path, rules.Settles snapshot depth path query := by
  induction answers with
  | input known =>
    refine ⟨1, fun path fresh other requests => ?_⟩
    simp [requests.1] at known
  | @computed query value readings reports free takes answered below ih =>
    have correct := fun reading member =>
      Correct.of_isAnswered (answered reading member) (below reading member)
    have bound : ∃ depth, ∀ reading ∈ readings, ∀ path,
        rules.Settles snapshot depth path reading.query := by
      refine exists_common_bound (fun settles le path => (settles path).mono le) _ ?_
      intro reading member
      obtain ⟨known, outcome, -⟩ := correct reading member
      exact ih reading member known outcome
    obtain ⟨depth, bound⟩ := bound
    refine ⟨depth + 1, fun path fresh other requests => ?_⟩
    obtain ⟨reading, member, rfl⟩ := requests.mem takes fun reading member =>
      .inl (correct reading member)
    exact bound reading member _

theorem Fails.settles {path : List S.Query} {query : S.Query} {error : QueryError}
    (fails : rules.Fails snapshot path query error)
    (requested : rules.Requested snapshot path query) :
    ∃ depth, rules.Settles snapshot depth path query := by
  have answered {readings : List (Reading S)}
      (correct : ∀ reading ∈ readings, rules.Correct snapshot reading) :
      ∃ depth, ∀ reading ∈ readings, ∀ path, rules.Settles snapshot depth path reading.query := by
    refine exists_common_bound (fun settles le path => (settles path).mono le) _ ?_
    intro reading member
    obtain ⟨known, -, answers⟩ := correct reading member
    exact answers.settles
  induction fails with
  | repeated free member => exact ⟨1, fun fresh => absurd member fresh⟩
  | raised free fresh takes correct =>
    obtain ⟨depth, bound⟩ := answered correct
    refine ⟨depth + 1, fun _ other requests => ?_⟩
    obtain ⟨reading, member, rfl⟩ := requests.mem takes fun reading member =>
      .inl (correct reading member)
    exact bound reading member _
  | passed free fresh takes correct below ih =>
    have last := Requests.of_last free takes correct
    obtain ⟨depth, bound⟩ := answered correct
    obtain ⟨inner, settles⟩ := ih (requested.cons last)
    refine ⟨max depth inner + 1, fun _ other requests => ?_⟩
    obtain ⟨reading, member, rfl⟩ := requests.mem takes
      (.concat correct (below.not_answers (requested.cons last)))
    obtain before | final := List.mem_append.mp member
    · exact (bound reading before _).mono (by omega)
    · obtain rfl := List.mem_singleton.mp final
      exact settles.mono (by omega)

/-- Requests repeat sooner or later if they lead to finitely many queries. -/
theorem settles_of_finite {query : S.Query} (path : List S.Query)
    (finite : {other | Relation.ReflTransGen (rules.Requests snapshot) query other}.Finite) :
    ∃ depth, rules.Settles snapshot depth path query := by
  have bound (left : Nat) (path : List S.Query) (inner : S.Query)
      (reached : Relation.ReflTransGen (rules.Requests snapshot) query inner)
      (count : (finite.toFinset.filter (· ∉ path)).card ≤ left) :
      rules.Settles snapshot (left + 1) path inner := by
    -- The reached queries off the path get fewer with each request that does not repeat.
    induction left generalizing path inner with
    | zero =>
      intro fresh
      have none := Finset.card_eq_zero.mp (Nat.le_zero.mp count)
      have : inner ∈ finite.toFinset.filter (· ∉ path) := by simp [reached, fresh]
      simp [none] at this
    | succ left ih =>
      intro fresh other requests
      refine ih (inner :: path) other (.tail reached requests) ?_
      have fewer : finite.toFinset.filter (· ∉ inner :: path) ⊂
          finite.toFinset.filter (· ∉ path) := by
        refine Finset.ssubset_iff_of_subset ?_ |>.mpr ⟨inner, by simp [reached, fresh], by simp⟩
        intro member
        simp only [Finset.mem_filter, List.mem_cons, not_or]
        rintro ⟨inside, -, off⟩
        exact ⟨inside, off⟩
      have := Finset.card_lt_card fewer
      omega
  exact ⟨_, bound _ path query .refl le_rfl⟩

end Rules

def Rules.snapshot {S : Signature} (rules : Rules S) (world : S.World)
    (input? : (query : S.Query) → Option (S.Value query)) : Snapshot S :=
  ⟨fun request => (rules.serve request world).1, input?⟩

def Account.fromScratch {S : Signature} {rules : Rules S} {E : Type} {environment : S.World → E}
    (deterministic : rules.Deterministic environment) (now : S.World)
    (input? : (query : S.Query) → Option (S.Value query)) : Account rules where
  journal := .all rules
  world current := environment current = environment now
  replies := rules.RepliesIn now
  past others := ∃ world, others = rules.RepliesIn world
  free query := input? query = none
  requested := rules.Requested (rules.snapshot now input?)
  answer query value := rules.Answers (rules.snapshot now input?) query value
  failure := rules.Fails (rules.snapshot now input?)
  settles := rules.Settles (rules.snapshot now input?)
  exact := True
  world_serve same := (deterministic.environment_serve _ _).trans same
  replies_serve same := deterministic.reply_eq _ _ _ same
  past_replies := ⟨now, rfl⟩
  steady := by
    rintro _ query _ _ _ ⟨world, rfl⟩ steady takes
    exact deterministic.steady query steady world now _ _ _ takes
  answer_unique _ _ _ _ first second := first.unique second
  unchanged _ _ _ _ same := (deterministic.isUnchanged_iff _ _ _).mp same
  answer_of_inexact inexact := absurd trivial inexact
  requested_nil query := List.isChain_singleton query
  settles_zero _ _ := id
  requested_next {path query other before outcome after reports ending} requested free fresh takes
      answers := by
    have correct := Rules.correct_before takes (deterministic.propagates query) answers
    have requests : rules.Requests (rules.snapshot now input?) query other :=
      ⟨free, before, outcome, after, reports, ending, takes, correct⟩
    exact ⟨requested.cons requests, fun depth settles => settles fresh other requests⟩
  answer_computed {query readings reports value} free takes answers := by
    refine .of_correct free takes fun reading member => ?_
    obtain ⟨value, answered⟩ := takes.answered (deterministic.propagates query) member
    exact ⟨value, answered, answers reading member value answered⟩
  failure_repeated free member := .repeated free member
  failure_computed {path query readings reports error} free fresh takes answers failed := by
    by_cases all : ∀ reading ∈ readings, rules.Correct (rules.snapshot now input?) reading
    · exact .raised free fresh takes all
    · simp only [not_forall] at all
      obtain ⟨reading, member, wrong⟩ := all
      cases outcome : reading.outcome with
      | ok value => exact absurd ⟨value, outcome, answers reading member value outcome⟩ wrong
      | error other =>
        obtain ⟨before, after, rfl⟩ := List.append_of_mem member
        obtain ⟨rfl, same⟩ := takes.error_last (deterministic.propagates query) rfl outcome
        cases same
        have last : reading = ⟨reading.query, .error error⟩ := by rw [← outcome]
        rw [last] at takes
        have correct := Rules.correct_before takes (deterministic.propagates query)
          fun earlier inside => answers earlier (List.mem_append_left _ inside)
        exact .passed free fresh takes correct (failed reading member error outcome)
  failure_read {path query other before outcome after reports value error} free fresh takes answers
      failed := by
    obtain ⟨reports, cut⟩ := takes.cut (deterministic.propagates query) error
    have correct := Rules.correct_before takes (deterministic.propagates query) answers
    exact .passed free fresh cut correct failed

namespace Invoice

inductive Item where
  | price
  | day
  | total
  | loop
deriving DecidableEq

def signature : Signature where
  Query := Item
  Value _ := Nat
  Request := Unit
  Reply _ := Nat
  World := Nat
  decideQuery := inferInstance

def note : Diagnostic :=
  .unreadableFile (.file .empty) "no invoice"

def rules : Rules signature where
  compute
    | .price => .pure Nat.zero
    | .day => .reply (S := signature) ()
    | .total =>
      (Computation.value (S := signature) .price).bind fun price =>
        .report note ((Computation.value (S := signature) .day).bind fun day =>
          .pure (Nat.add price day))
    | .loop => .value (S := signature) .loop
  isVolatile
    | .day => true
    | _ => false
  isUnchanged _ old new := Nat.beq old new
  label
    | .price => "price"
    | .day => "day"
    | .total => "total"
    | .loop => "loop"
  references _ := []
  serve _ now := (now, now)

theorem asksOnly_bind {kind : Unit → Prop} {query : Item} {next : Nat → Computation signature Nat}
    (only : ∀ value, (next value).AsksOnly kind) :
    ((Computation.value (S := signature) query).bind next).AsksOnly kind := by
  rintro (error | value)
  · trivial
  · exact only value

theorem deterministic : rules.Deterministic (id : signature.World → signature.World) where
  environment_serve _ _ := rfl
  reply_eq _ _ _ same := same
  steady query steady world other readings reports ending takes := by
    have only : (rules.compute query).AsksOnly fun _ => False := by
      cases query with
      | price => trivial
      | day => cases steady
      | total => exact asksOnly_bind fun _ => asksOnly_bind fun _ => trivial
      | loop =>
        rintro (error | value)
        · trivial
        · trivial
    exact takes.of_asksOnly only nofun
  propagates query := by
    cases query <;>
      simp [rules, Computation.Propagates, Computation.value, Computation.bind, Computation.reply]
  isUnchanged_iff _ old new := Nat.beq_eq ▸ Iff.rfl

theorem raises (query : Item) : (rules.compute query).Raises fun _ => False := by
  cases query <;>
    simp [rules, Computation.Raises, Computation.value, Computation.bind, Computation.reply]

end Invoice

end IncrementalFrontend
