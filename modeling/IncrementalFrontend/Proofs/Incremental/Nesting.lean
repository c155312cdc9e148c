import IncrementalFrontend.Proofs.Incremental.Action
import IncrementalFrontend.Proofs.Incremental.Course
import IncrementalFrontend.Proofs.Incremental.Slots

/-!
What goes on within a request. Its outcome does not name the contexts that it goes through, so they
are told here: where a query starts to be computed, how far the computation has come, and which
requests are made on the way.
-/
namespace IncrementalFrontend

def Computation.ended {S : Signature} {α : Type} : Except QueryError α → Computation S α
  | .ok result => .pure result
  | .error error => .fail error

namespace Run

variable {S : Signature} {α : Type}

inductive Proceeds (rules : Rules S)
    (fetch : (query : S.Query) → Run S (Nat × Shared (S.Value query)))
    (computation : Computation S α) (start : Context S) :
    Computation S α → Context S → List (Reading S) → List Diagnostic → Prop
  | start : Proceeds rules fetch computation start computation start [] []
  | read {query : S.Query} {next : Except QueryError (S.Value query) → Computation S α}
      {context after : Context S} {readings : List (Reading S)} {reports : List Diagnostic}
      {outcome : Except QueryError (Shared (S.Value query))} :
      Proceeds rules fetch computation start (.read query next) context readings reports →
        access fetch query context = some (outcome, after) →
        Proceeds rules fetch computation start (next (outcome.map (·.value))) after
          (readings ++ [⟨query, outcome.map (·.value)⟩]) reports
  | ask {request : S.Request} {next : S.Reply request → Computation S α} {context : Context S}
      {readings : List (Reading S)} {reports : List Diagnostic} :
      Proceeds rules fetch computation start (.ask request next) context readings reports →
        Proceeds rules fetch computation start (next (rules.serve request context.world).1)
          { context with world := (rules.serve request context.world).2 } readings reports
  | report {diagnostic : Diagnostic} {next : Computation S α} {context : Context S}
      {readings : List (Reading S)} {reports : List Diagnostic} :
      Proceeds rules fetch computation start (.report diagnostic next) context readings reports →
        Proceeds rules fetch computation start next (context.report diagnostic) readings
          (reports ++ [diagnostic])

structure HasOlder (context : Context S) (query : S.Query) (slot : Nat) (entry : Entry S query) :
    Prop where
  found : context.cache.find? query = some (slot, entry)
  value : entry.value.isSome
  older : entry.verifiedAt ≠ context.revision
  derived : entry.origin = .derived

inductive Starts (rules : Rules S)
    (fetch : (query : S.Query) → Run S (Nat × Shared (S.Value query)))
    (query : S.Query) (context : Context S) : Nat → Context S → Prop
  | new : context.cache.find? query = none →
      Starts rules fetch query context (context.cache.insert query .derived context.revision).1
        { context with cache := (context.cache.insert query .derived context.revision).2 }
  | unset {slot : Nat} {entry : Entry S query} :
      context.cache.find? query = some (slot, entry) → entry.value = none →
        Starts rules fetch query context slot context
  | volatile {slot : Nat} {entry : Entry S query} :
      HasOlder context query slot entry → rules.isVolatile query = true →
        Starts rules fetch query context slot context
  | changed {slot : Nat} {entry : Entry S query} {after : Context S} :
      HasOlder context query slot entry → rules.isVolatile query = false →
        context.cycle? rules slot = none →
        isUpToDate fetch slot entry.verifiedAt context = some (.ok false, after) →
        Starts rules fetch query context slot after

inductive Nests (rules : Rules S)
    (fetch : (query : S.Query) → Run S (Nat × Shared (S.Value query)))
    (query : S.Query) (context : Context S) : S.Query → Context S → Prop
  | read {slot : Nat} {start there : Context S} {other : S.Query}
      {next : Except QueryError (S.Value other) → Computation S (S.Value query)}
      {readings : List (Reading S)} {reports : List Diagnostic} :
      Starts rules fetch query context slot start → start.cycle? rules slot = none →
        Proceeds rules fetch (rules.compute query) (start.pushFrame slot .computing)
          (.read other next) there readings reports →
        Nests rules fetch query context other there
  | check {slot dependency : Nat} {entry : Entry S query} {before rest : List Nat}
      {there : Context S} {memo : Memo S} :
      HasOlder context query slot entry → rules.isVolatile query = false →
        context.cycle? rules slot = none → entry.dependencies = before ++ dependency :: rest →
        areUnchanged fetch entry.verifiedAt before (context.pushFrame slot .validating) =
          some (.ok true, there) →
        there.cache.memo? dependency = some memo →
        Nests rules fetch query context memo.query (there.updateCache Cache.countValidation)

/-- Requests that are made in the course of one, with the depth left for each. -/
inductive Involves (rules : Rules S) (depth : Nat) (query : S.Query) (context : Context S) :
    Nat → S.Query → Context S → Prop
  | self : Involves rules depth query context depth query context
  | nested {inner : Nat} {other third : S.Query} {there place : Context S} :
      Involves rules depth query context (inner + 1) other there →
        Nests rules (fetch rules inner) other there third place →
        Involves rules depth query context inner third place

variable {rules : Rules S} {fetch : (query : S.Query) → Run S (Nat × Shared (S.Value query))}
  {query : S.Query} {context start after : Context S} {slot : Nat}

/-- A computation ends as what remains of it does. -/
theorem Proceeds.evaluate_eq {computation rest : Computation S α} {readings : List (Reading S)}
    {reports : List Diagnostic}
    (proceeds : Proceeds rules fetch computation start rest context readings reports) :
    evaluate rules fetch computation start = evaluate rules fetch rest context := by
  induction proceeds with
  | start => rfl
  | @read query next context after readings reports outcome _ accessed ih =>
    rw [ih, evaluate, attempt_bind_apply, accessed]
    rfl
  | ask _ ih => exact ih
  | report _ ih => exact ih

/-- A query with an older memo is computed again if it is volatile, or if the check says so. -/
theorem HasOlder.answer_eq {entry : Entry S query} (older : HasOlder context query slot entry) :
    ∃ shared, entry.value = some shared ∧ answer rules fetch query context =
      (if rules.isVolatile query then execute rules fetch slot query
      else do
        checkCycle rules slot
        if ← isUpToDate fetch slot entry.verifiedAt then
          updateCache (·.verify slot context.revision)
          return (slot, shared)
        execute rules fetch slot query : Run S (Nat × Shared (S.Value query))) context := by
  obtain ⟨shared, value⟩ := Option.isSome_iff_exists.mp older.value
  refine ⟨shared, value, ?_⟩
  have computed : ¬ entry.origin = .input := by simp [older.derived]
  unfold answer
  rw [bind_of_eq rfl, older.found]
  simp only [value]
  unfold fromMemo
  rw [bind_of_eq rfl, if_neg older.older, if_neg computed]

/-- If its query is not in flight and not volatile, an older memo answers, or it is out of date. -/
theorem HasOlder.answer_of_steady {entry : Entry S query}
    (older : HasOlder context query slot entry) (steady : rules.isVolatile query = false)
    (fresh : context.cycle? rules slot = none) :
    ∃ shared, entry.value = some shared ∧ answer rules fetch query context =
      (do
        if ← isUpToDate fetch slot entry.verifiedAt then
          updateCache (·.verify slot context.revision)
          return (slot, shared)
        execute rules fetch slot query : Run S (Nat × Shared (S.Value query))) context := by
  obtain ⟨shared, value, answers⟩ := older.answer_eq
  refine ⟨shared, value, ?_⟩
  rw [answers, steady, if_neg Bool.false_ne_true, bind_of_eq (checkCycle_of_fresh fresh)]

/-- A query in flight does not answer from an older memo. -/
theorem HasOlder.answer_of_cycle {entry : Entry S query} {labels : List String}
    (older : HasOlder context query slot entry) (steady : rules.isVolatile query = false)
    (cycle : context.cycle? rules slot = some labels) :
    answer rules fetch query context = some (.error (.cycle labels), context) := by
  obtain ⟨_, -, answers⟩ := older.answer_eq
  rw [answers, steady, if_neg Bool.false_ne_true, bind_of_error (checkCycle_of_cycle cycle)]

/-- A request ends as the computation of its query does, from where it starts. -/
theorem Starts.answer_eq (starts : Starts rules fetch query context slot start) :
    answer rules fetch query context = execute rules fetch slot query start := by
  cases starts with
  | new none =>
    unfold answer
    rw [bind_of_eq rfl, none]
    exact bind_of_eq rfl _
  | unset found none =>
    unfold answer
    rw [bind_of_eq rfl, found]
    simp only [none]
  | volatile older volatile =>
    obtain ⟨shared, -, answers⟩ := older.answer_eq
    rw [answers, if_pos volatile]
  | changed older steady fresh ran =>
    obtain ⟨shared, -, answers⟩ := older.answer_of_steady steady fresh
    rw [answers, bind_of_eq ran]
    rfl

/-- Checking slots goes on with the rest after some that have not changed. -/
theorem areUnchanged_append {since : Revision} {done : List Nat}
    (ran : areUnchanged fetch since done start = some (.ok true, context)) (rest : List Nat) :
    areUnchanged fetch since (done ++ rest) start = areUnchanged fetch since rest context := by
  induction done generalizing start with
  | nil =>
    cases ran
    rfl
  | cons dependency done ih =>
    rw [areUnchanged] at ran
    rw [List.cons_append, areUnchanged]
    obtain ⟨_, _, counted, ran⟩ := exists_of_bind_eq_ok ran
    obtain ⟨memo, _, read, ran⟩ := exists_of_bind_eq_ok ran
    obtain ⟨_, _, served, ran⟩ := exists_of_bind_eq_ok ran
    obtain ⟨known, _, read', ran⟩ := exists_of_bind_eq_ok ran
    rw [bind_of_eq counted, bind_of_eq read, bind_of_eq served, bind_of_eq read']
    split at ran
    · cases ran
    · rename_i unchanged
      rw [if_neg unchanged]
      exact ih ran

section Check

variable {since : Revision} {dependency : Nat} {rest : List Nat} {memo : Memo S}

theorem areUnchanged_cons (here : context.cache.memo? dependency = some memo) :
    areUnchanged fetch since (dependency :: rest) context =
      (fetch memo.query >>= fun _ => do
        if since < (← Run.memo dependency).entry.changedAt then return false
        areUnchanged fetch since rest : Run S Bool)
        (context.updateCache Cache.countValidation) := by
  have counted : (updateCache Cache.countValidation : Run S Unit) context =
      some (.ok (), context.updateCache Cache.countValidation) := rfl
  have here : (context.updateCache Cache.countValidation).cache.memo? dependency = some memo := here
  rw [areUnchanged, bind_of_eq counted, bind_of_eq (memo_apply here)]

/-- Checking ends at a slot whose memo changed, and goes on behind another one. -/
theorem areUnchanged_next {known : Memo S} {result : Nat × Shared (S.Value memo.query)}
    (here : context.cache.memo? dependency = some memo)
    (served : fetch memo.query (context.updateCache Cache.countValidation) =
      some (.ok result, after))
    (there : after.cache.memo? dependency = some known) :
    areUnchanged fetch since (dependency :: rest) context =
      if since < known.entry.changedAt then some (.ok false, after)
      else areUnchanged fetch since rest after := by
  rw [areUnchanged_cons here, bind_of_eq served, bind_of_eq (memo_apply there)]
  split <;> rfl

/-- Checking comes past a slot whose memo has not changed. -/
theorem areUnchanged_concat {done : List Nat} {result : Nat × Shared (S.Value memo.query)}
    {known : Memo S} (ran : areUnchanged fetch since done start = some (.ok true, context))
    (here : context.cache.memo? dependency = some memo)
    (served : fetch memo.query (context.updateCache Cache.countValidation) =
      some (.ok result, after))
    (there : after.cache.memo? dependency = some known)
    (unchanged : ¬ since < known.entry.changedAt) :
    areUnchanged fetch since (done ++ [dependency]) start = some (.ok true, after) := by
  rw [areUnchanged_append ran, areUnchanged_next here served there, if_neg unchanged]
  rfl

end Check

/-- Checking a memo is checking its dependencies in a frame of its own. -/
theorem isUpToDate_eq {since : Revision} {entry : Entry S query}
    (here : context.cache.memo? slot = some ⟨query, entry⟩) :
    isUpToDate fetch slot since context =
      (areUnchanged fetch since entry.dependencies (context.pushFrame slot .validating)).map
        fun (outcome, after) => (outcome, after.truncate context.depth) := by
  unfold isUpToDate
  rw [bind_of_eq (memo_apply here), bind_of_eq rfl, bind_of_eq rfl, attempt_bind_apply]
  cases areUnchanged fetch since entry.dependencies (context.pushFrame slot .validating) with
  | none => rfl
  | some result =>
    obtain ⟨outcome, after⟩ := result
    cases outcome <;> rfl

def finish (rules : Rules S) (slot depth : Nat) (query : S.Query)
    (ending : Except QueryError (S.Value query)) : Run S (Nat × Shared (S.Value query)) := do
  let frame ← popFrame depth
  let value ← ofExcept ending
  return (slot, ← storeResult rules slot query value frame)

/-- A query that is not in flight is computed in a frame of its own. -/
theorem execute_of_fresh (fresh : context.cycle? rules slot = none) :
    execute rules fetch slot query context =
      (evaluate rules fetch (rules.compute query) (context.pushFrame slot .computing)).bind
        fun (ending, after) => finish rules slot context.depth query ending after := by
  unfold execute
  rw [bind_of_eq (checkCycle_of_fresh fresh), bind_of_eq rfl, bind_of_eq rfl, attempt_bind_apply]
  rfl

theorem Nests.exhausted {other : S.Query} {there : Context S}
    (nests : Nests rules fetch query context other there) (stuck : fetch other there = none) :
    answer rules fetch query context = none := by
  cases nests with
  | read starts fresh proceeds =>
    rw [starts.answer_eq, execute_of_fresh fresh, proceeds.evaluate_eq, evaluate,
      attempt_bind_apply, access, bind_of_eq rfl, bind_apply, stuck]
    rfl
  | @check slot dependency entry before rest there memo older steady fresh split ran here =>
    have checked : areUnchanged fetch entry.verifiedAt entry.dependencies
        (context.pushFrame slot .validating) = none := by
      rw [split, areUnchanged_append ran, areUnchanged_cons here, bind_apply, stuck]
      rfl
    obtain ⟨shared, -, answers⟩ := older.answer_of_steady steady fresh
    rw [answers, bind_apply, isUpToDate_eq (Cache.memo?_of_find? older.found), checked]
    rfl

/-- A request is really made: without an outcome of it there is none of the one that involves it. -/
theorem Involves.exhausted {depth inner : Nat} {other : S.Query} {there : Context S}
    (involves : Involves rules depth query context inner other there)
    (stuck : Run.fetch rules inner other there = none) :
    Run.fetch rules depth query context = none := by
  induction involves with
  | self => exact stuck
  | nested _ nests ih => exact ih (nests.exhausted stuck)

end Run

structure Journal {S : Signature} (rules : Rules S) where
  made : Nat → S.Query → Context S → Prop
  nested : ∀ {depth query context other there}, made (depth + 1) query context →
    Run.Nests rules (Run.fetch rules depth) query context other there → made depth other there

namespace Journal

variable {S : Signature} {rules : Rules S}

def all (rules : Rules S) : Journal rules where
  made _ _ _ := True
  nested _ _ := trivial

def adjoin (journal : Journal rules) (depth : Nat) (query : S.Query) (context : Context S) :
    Journal rules where
  made inner other there :=
    journal.made inner other there ∨ Run.Involves rules depth query context inner other there
  nested made nests := made.imp (journal.nested · nests) (.nested · nests)

def Within (journal more : Journal rules) : Prop :=
  ∀ ⦃depth query context⦄, journal.made depth query context → more.made depth query context

/-- One of the requests computed the query in a slot: the execution, counted from 1, went through
the readings and the reports to the value, which was stored with the next identity. -/
def Executed (journal : Journal rules) (slot : Nat) (query : S.Query) (count : Nat)
    (readings : List (Reading S)) (reports : List Diagnostic) (shared : Shared (S.Value query)) :
    Prop :=
  ∃ depth context start entry after, journal.made (depth + 1) query context ∧
    Run.Starts rules (Run.fetch rules depth) query context slot start ∧
    start.cycle? rules slot = none ∧
    start.cache.memo? slot = some ⟨query, entry⟩ ∧ count = entry.executions + 1 ∧
    Run.Proceeds rules (Run.fetch rules depth) (rules.compute query)
      (start.pushFrame slot .computing) (.pure shared.value) after readings reports ∧
    shared.identity = after.nextIdentity

theorem Executed.mono {journal more : Journal rules} (within : journal.Within more) {slot : Nat}
    {query : S.Query} {count : Nat} {readings : List (Reading S)} {reports : List Diagnostic}
    {shared : Shared (S.Value query)}
    (executed : journal.Executed slot query count readings reports shared) :
    more.Executed slot query count readings reports shared := by
  obtain ⟨depth, context, start, entry, after, made, rest⟩ := executed
  exact ⟨depth, context, start, entry, after, within made, rest⟩

end Journal

end IncrementalFrontend
