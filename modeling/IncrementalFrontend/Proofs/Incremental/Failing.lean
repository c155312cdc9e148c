import IncrementalFrontend.Proofs.Incremental.Equations
import IncrementalFrontend.Proofs.Incremental.MemoGraph

/-!
Requests in the course of a request. What they complete stays, and answers at once wherever it is
requested again. The error of one passes through the queries in flight, and each leaves its frame
without storing anything.
-/
namespace IncrementalFrontend

namespace Circuit

inductive Part where
  | switch
  | fuse
  | lamp
deriving DecidableEq

def signature : Signature where
  Query := Part
  Value _ := Bool
  Request := Unit
  Reply _ := Unit
  World := Unit
  decideQuery := inferInstance

def rules : Rules signature where
  compute
    | .switch => .pure false
    | .fuse => .value (S := signature) .switch
    | .lamp =>
      (Computation.value (S := signature) .fuse).bind fun (isOn : Bool) =>
        if isOn then .value (S := signature) .lamp else .pure true
  isVolatile _ := false
  isUnchanged _ (old new : Bool) := old == new
  label
    | .switch => "switch"
    | .fuse => "fuse"
    | .lamp => "lamp"
  references _ := []
  serve _ world := ((), world)

theorem propagates (query : Part) : (rules.compute query).Propagates := by
  cases query with
  | switch => trivial
  | fuse => exact ⟨fun _ => rfl, fun _ => trivial⟩
  | lamp =>
    refine ⟨fun _ => rfl, fun isOn => ?_⟩
    cases isOn with
    | false => trivial
    | true => exact ⟨fun _ => rfl, fun _ => trivial⟩

def asked : Context signature :=
  let session : Context signature := .withInputs rules () false [⟨Part.switch, false⟩]
  ((Run.request rules 4 Part.lamp session).map (·.2)).getD session

def resumed : Context signature :=
  (asked.setInput rules Part.switch true).2

theorem reachable_resumed : resumed.Reachable rules (SameEnvironment fun _ => ()) := by
  have start : (Context.start () false : Context signature).Reachable rules
      (SameEnvironment fun _ => ()) := ⟨(), false, .refl⟩
  have session := start.setInput (fun _ => rfl) Part.switch false
  exact (session.request 4 Part.lamp).setInput (fun _ => rfl) Part.switch true

end Circuit

variable {S : Signature} {rules : Rules S} {query : S.Query}

namespace Cache

variable {account : Account rules} {revision : Revision} {stack : List S.Query}
  {start last : Cache S} {first next slot : Nat}

/-- Only the renewed memo changes, and it is verified in the revision. -/
theorem Renews.of_stale {cache : Cache S} {place : Nat} {other : S.Query} {old new : Entry S other}
    {shared : Shared (S.Value other)}
    (renews : cache.Renews account revision place old new shared) {entry : Entry S query}
    (here : (cache.put place ⟨other, new⟩).memo? slot = some ⟨query, entry⟩)
    (stale : ¬ entry.IsCurrent revision) : cache.memo? slot = some ⟨query, entry⟩ := by
  obtain ⟨-, same⟩ | ⟨-, before⟩ := renews.eq_or_memo? here
  · cases same
    exact absurd ⟨by simp [renews.value], renews.verifiedAt⟩ stale
  · exact before

theorem Changes.query? (changes : start.Changes account revision stack first last next)
    (accounted : start.Accounted account revision) (here : start.query? slot = some query) :
    last.query? slot = some query := by
  induction changes with
  | refl => exact here
  | recount _ _ _ ih => exact ih
  | insert before _ _ _ ih =>
    obtain ⟨entry, there⟩ := memo?_of_query? ih
    exact query?_eq (memo?_insert_of_memo? (before.accounted accounted).wellFormed _ there)
  | verify _ renews _ _ _ ih => exact (congrFun renews.query? slot).trans ih
  | compute _ renews _ _ _ _ ih => exact (congrFun renews.query? slot).trans ih

/-- A memo that is not verified in the revision is as it was at the start, or new. -/
theorem Changes.of_stale (changes : start.Changes account revision stack first last next)
    (accounted : start.Accounted account revision) {entry : Entry S query}
    (here : last.memo? slot = some ⟨query, entry⟩) (stale : ¬ entry.IsCurrent revision) :
    start.memo? slot = some ⟨query, entry⟩ ∨
      (∀ place, start.query? place ≠ some query) ∧
        (⟨query, entry⟩ : Memo S) = newMemo query .derived revision := by
  induction changes with
  | refl => exact .inl here
  | recount _ _ _ ih => exact ih here
  | insert before absent _ _ ih =>
    obtain new | old := memo?_of_memo?_insert (before.accounted accounted).wellFormed _ here
    · cases new
      exact .inr ⟨fun place there => absent place (before.query? accounted there), rfl⟩
    · exact ih old
  | verify _ renews _ _ _ ih => exact ih (renews.of_stale here stale)
  | compute _ renews _ _ _ _ ih => exact ih (renews.of_stale here stale)

end Cache

namespace Run

variable {depth slot : Nat} {path : List S.Query} {other : S.Query}
  {context start there later last : Context S} {readings : List (Reading S)}
  {reports : List Diagnostic}

theorem Proceeds.propagates {α : Type} {fetch : (query : S.Query) → Run S (Nat × Shared (S.Value query))}
    {computation rest : Computation S α}
    (proceeds : Proceeds rules fetch computation start rest there readings reports)
    (propagates : computation.Propagates) : rest.Propagates := by
  induction proceeds with
  | start => exact propagates
  | @read query next context after readings reports outcome _ _ ih =>
    cases outcome with
    | ok shared => exact ih.2 shared.value
    | error error =>
      show (next (.error error)).Propagates
      rw [ih.1 error]
      trivial
  | ask _ ih => exact ih _
  | report _ ih => exact ih

/-- A computation under way has grown the context, and its frame tells what it did so far. -/
theorem Proceeds.progress {outer : List Frame} {rest : Computation S (S.Value query)}
    (begun : Progress (.plain rules) path query slot outer [] [] [] start)
    (proceeds : Proceeds rules (fetch rules depth) (rules.compute query) start rest there readings
      reports) :
    start.Grows (.plain rules) (query :: path) there ∧
      Remains (.plain rules) depth query start rest there readings reports ∧
      ∃ reads, Progress (.plain rules) path query slot outer reads readings reports there := by
  induction proceeds with
  | start => exact ⟨.refl _, .initial, [], begun⟩
  | read _ accessed ih =>
    obtain ⟨grows, remains, reads, progress⟩ := ih
    obtain ⟨grows', more, progress⟩ :=
      (meets_access (serves_fetch _ depth) progress trivial trivial).2 _ _ accessed
    exact ⟨grows.trans grows', remains.read accessed, more, progress⟩
  | @ask request next context readings reports _ ih =>
    obtain ⟨grows, remains, reads, progress⟩ := ih
    have served : context.Grows (.plain rules) (query :: path)
        { context with world := (rules.serve request context.world).2 } :=
      ⟨.refl _, .refl, rfl, rfl, rfl, rfl⟩
    exact ⟨grows.trans served, remains.ask ⟨_, rfl⟩, reads, progress.serve request⟩
  | report _ ih =>
    obtain ⟨grows, remains, reads, progress⟩ := ih
    obtain ⟨reported, grows'⟩ := progress.report _
    exact ⟨grows.trans grows', remains.report, reads, reported⟩

theorem HasOlder.stale {entry : Entry S query} (older : HasOlder context query slot entry) :
    ¬ entry.IsCurrent context.revision :=
  fun current => older.older current.2

/-- Checking a memo brings its dependencies up to date, and leaves the memo alone. -/
theorem HasOlder.checked {account : Account rules} {entry : Entry S query}
    {outcome : Except QueryError Bool} (older : HasOlder context query slot entry)
    (sound : context.Sound account path) (requested : account.requested path query)
    (made : account.journal.made (depth + 1) query context)
    (steady : rules.isVolatile query = false) (fresh : context.cycle? rules slot = none)
    (ran : isUpToDate (fetch rules depth) slot entry.verifiedAt context = some (outcome, there)) :
    there.Sound account path ∧ context.Grows account (query :: path) there ∧
      there.cache.memo? slot = some ⟨query, entry⟩ ∧
      (outcome = .ok true →
        there.cache.Checked there.revision entry.verifiedAt entry.dependencies) ∧
      (outcome = .ok false → there.cache.Reason rules there.revision entry) := by
  have here := Cache.memo?_of_find? older.found
  obtain ⟨shared, value⟩ := Option.isSome_iff_exists.mp older.value
  have unrepeated := sound.not_mem_of_cycle? (Cache.query?_eq here) fresh
  have checks := meets_isUpToDate (serves_fetch _ depth) sound here older.derived value
    older.stale steady requested unrepeated
    fun split ran there => account.journal.nested made (.check older steady fresh split ran there)
  obtain ⟨sound', grows, -, kept, upToDate, changed, -⟩ := checks.2 _ _ ran
  exact ⟨sound', grows, kept, upToDate, changed⟩

/-- Where a query starts to be computed, its memo is stale and there is a reason. -/
theorem Starts.begins {account : Account rules}
    (starts : Starts rules (fetch rules depth) query context slot start)
    (sound : context.Sound account path) (requested : account.requested path query)
    (made : account.journal.made (depth + 1) query context) :
    start.Sound account path ∧ context.Grows account (query :: path) start ∧
      ∃ entry, start.cache.memo? slot = some ⟨query, entry⟩ ∧ entry.origin = .derived ∧
        ¬ entry.IsCurrent start.revision ∧ start.cache.Reason rules start.revision entry := by
  cases starts with
  | new none =>
    obtain ⟨sound', grows, here⟩ := sound_insert sound (Cache.query?_ne_of_find? none) requested
    exact ⟨sound', grows, _, here, rfl, nofun, .unset rfl⟩
  | @unset _ entry found none =>
    have here := Cache.memo?_of_find? found
    have stale : ¬ entry.IsCurrent context.revision := by simp [Entry.IsCurrent, none]
    exact ⟨sound, .refl _, entry, here, derived_of_none sound here none, stale, .unset none⟩
  | @volatile _ entry older volatile =>
    have here := Cache.memo?_of_find? older.found
    exact ⟨sound, .refl _, entry, here, older.derived, older.stale, .volatile volatile⟩
  | @changed _ entry _ older steady fresh ran =>
    obtain ⟨sound', grows, here, -, changed⟩ :=
      older.checked sound requested made steady fresh ran
    have stale : ¬ entry.IsCurrent start.revision := by
      rw [grows.revision]
      exact older.stale
    exact ⟨sound', grows, entry, here, older.derived, stale, changed rfl⟩

theorem Starts.sound (starts : Starts rules (fetch rules depth) query context slot start)
    (sound : context.Sound (.plain rules) path) :
    start.Sound (.plain rules) path ∧ context.Grows (.plain rules) (query :: path) start ∧
      ∃ entry, start.cache.memo? slot = some ⟨query, entry⟩ ∧ entry.origin = .derived ∧
        ¬ entry.IsCurrent start.revision ∧ start.cache.Reason rules start.revision entry :=
  starts.begins sound trivial trivial

def Later (context after : Context S) : Prop :=
  context.cache.Grows False context.revision [] after.cache ∧ after.revision = context.revision

theorem Later.trans (first : Later start context) (second : Later context last) :
    Later start last := by
  obtain ⟨grows, revision⟩ := first
  obtain ⟨grows', revision'⟩ := second
  rw [revision] at grows'
  exact ⟨grows.trans grows', revision'.trans revision⟩

theorem Later.of_grows {stack : List S.Query} (grows : context.Grows (.plain rules) stack last) :
    Later context last :=
  ⟨grows.cache.mono (List.forall_mem_nil _), grows.revision⟩

/-- A read within a query hands on what the request for the other query gave. -/
theorem access_of_fetch {fetch : (query : S.Query) → Run S (Nat × Shared (S.Value query))}
    {outcome : Except QueryError (Nat × Shared (S.Value other))}
    (inQuery : there.isInQuery = true) (ran : fetch other there = some (outcome, later)) :
    ∃ after, access fetch other there = some (outcome.map (·.2), after) ∧
      after.cache = later.cache ∧ after.revision = later.revision ∧
      ∀ error, outcome = .error error → after = later := by
  cases outcome with
  | error error => exact ⟨later, access_of_error ran, rfl, rfl, fun _ _ => rfl⟩
  | ok result =>
    have recorded : (later.recordRead result.1).cache = later.cache ∧
        (later.recordRead result.1).revision = later.revision := by
      unfold Context.recordRead
      split
      · split <;> exact ⟨rfl, rfl⟩
      · exact ⟨rfl, rfl⟩
    exact ⟨later.recordRead result.1, access_of_ok inQuery ran, recorded.1, recorded.2, nofun⟩

section Read

variable {next : Except QueryError (S.Value other) → Computation S (S.Value query)}

/-- A query that starts to be computed has a frame of its own. -/
theorem Starts.begun (starts : Starts rules (fetch rules depth) query context slot start)
    (sound : context.Sound (.plain rules) path) :
    Progress (.plain rules) path query slot start.active [] [] []
      (start.pushFrame slot .computing) := by
  obtain ⟨sound', -, entry, here, derived, stale, -⟩ := starts.sound sound
  exact ⟨sound'.push here derived stale .computing, rfl, rfl, by simp, by simp, by simp⟩

/-- After a read the query in flight goes on, and ends as its computation does. -/
theorem Starts.resumes (starts : Starts rules (fetch rules depth) query context slot start)
    (fresh : start.cycle? rules slot = none)
    (proceeds : Proceeds rules (fetch rules depth) (rules.compute query)
      (start.pushFrame slot .computing) (.read other next) there readings reports)
    {outcome : Except QueryError (Shared (S.Value other))}
    (accessed : access (fetch rules depth) other there = some (outcome, later)) :
    answer rules (fetch rules depth) query context =
      (evaluate rules (fetch rules depth) (next (outcome.map (·.value))) later).bind
        fun (ending, after) => finish rules slot start.depth query ending after := by
  rw [starts.answer_eq, execute_of_fresh fresh, proceeds.evaluate_eq, evaluate,
    attempt_bind_apply, accessed]
  rfl

/-- What a read query brought up to date stays so, and its error ends the query in flight. -/
theorem Starts.passes (starts : Starts rules (fetch rules depth) query context slot start)
    (sound : context.Sound (.plain rules) path) (fresh : start.cycle? rules slot = none)
    (proceeds : Proceeds rules (fetch rules depth) (rules.compute query)
      (start.pushFrame slot .computing) (.read other next) there readings reports)
    (propagates : (rules.compute query).Propagates)
    {outcome : Except QueryError (Nat × Shared (S.Value other))}
    {result : Except QueryError (Nat × Shared (S.Value query))}
    (ran : fetch rules depth other there = some (outcome, later))
    (answered : answer rules (fetch rules depth) query context = some (result, last)) :
    Later later last ∧
      ∀ error, outcome = .error error → result = .error error ∧ last.cache = later.cache := by
  obtain ⟨sound', -, entry, here, derived, stale, reason⟩ := starts.sound sound
  have unrepeated := sound'.not_mem_of_cycle? (Cache.query?_eq here) fresh
  obtain ⟨grows, remains, reads, progress⟩ := proceeds.progress (starts.begun sound)
  have inQuery : there.isInQuery = true := by simp [Context.isInQuery, progress.active]
  obtain ⟨after, accessed, cache, revision, failed⟩ := access_of_fetch inQuery ran
  obtain ⟨grows', more, progress⟩ :=
    (meets_access (serves_fetch _ depth) progress trivial trivial).2 _ _ accessed
  rw [starts.resumes fresh proceeds accessed] at answered
  obtain ⟨⟨ending, middle⟩, evaluated, finished⟩ := Option.bind_eq_some_iff.mp answered
  constructor
  · obtain ⟨grows'', all, readings', reports', progress, takes, proceeds'⟩ :=
      (meets_evaluate (serves_fetch _ depth) _ progress trivial trivial unrepeated
        (fun _ => trivial) (remains.read accessed)).2 _ _ evaluated
    have executed (value : S.Value query) (ended : ending = .ok value) :
        (Account.plain rules).journal.Executed slot query (entry.executions + 1) readings' reports'
          ⟨middle.nextIdentity, value⟩ := by
      subst ended
      exact ⟨depth, context, start, entry, middle, trivial, starts, fresh, here, rfl, proceeds', rfl⟩
    have fetched := (meets_finish True here derived stale reason trivial trivial unrepeated
      ((grows.trans grows').trans grows'') progress takes executed).2 _ _ finished
    have handed : Later later after := by
      rw [Later, cache, revision]
      exact ⟨.refl _, rfl⟩
    have stored := Later.of_grows fetched.grows
    exact (handed.trans (.of_grows grows'')).trans stored
  · rintro error rfl
    obtain rfl := failed error rfl
    have ends : next (.error error) = .fail error := (proceeds.propagates propagates).1 error
    have ends : evaluate rules (fetch rules depth) (next (.error error)) after =
        some (.error error, after) := by
      rw [ends]
      rfl
    obtain ⟨rfl, rfl⟩ : Except.error error = ending ∧ after = middle := by
      simpa using ends.symm.trans evaluated
    dsimp only at finished
    rw [Context.depth, finish, bind_of_eq (popFrame_apply progress.active)] at finished
    cases finished
    exact ⟨rfl, rfl⟩

end Read

section Check

variable {entry : Entry S query} {done before rest : List Nat} {dependency : Nat} {memo : Memo S}
  {shared : Shared (S.Value query)} {outcome : Except QueryError Bool}

/-- What is verified stays so while dependencies are checked. -/
theorem Checking.keeps
    (checking : Checking (.plain rules) path slot entry depth start done context)
    (derived : entry.origin = .derived) (value : entry.value = some shared)
    (steady : rules.isVolatile query = false) (fresh : query ∉ path)
    (split : entry.dependencies = done ++ rest)
    (ran : areUnchanged (fetch rules depth) entry.verifiedAt rest context = some (outcome, last)) :
    Later context last := by
  rw [← List.append_nil rest, ← List.append_assoc] at split
  exact .of_grows ((meets_areUnchanged (serves_fetch _ depth) checking derived value steady split
    trivial fresh fun _ _ _ => trivial).2 _ _ ran).2.1

/-- What the check of a dependency brought up to date stays so, and its error ends the check. -/
theorem Checking.passes
    (checking : Checking (.plain rules) path slot entry depth start done context)
    (derived : entry.origin = .derived) (value : entry.value = some shared)
    (steady : rules.isVolatile query = false) (fresh : query ∉ path)
    (split : entry.dependencies = done ++ dependency :: rest)
    (here : context.cache.memo? dependency = some memo)
    {result : Except QueryError (Nat × Shared (S.Value memo.query))}
    (served : fetch rules depth memo.query (context.updateCache Cache.countValidation) =
      some (result, later))
    (goes : areUnchanged (fetch rules depth) entry.verifiedAt (dependency :: rest) context =
      some (outcome, last)) :
    Later later last ∧
      ∀ error, result = .error error → outcome = .error error ∧ last = later := by
  have sound : (context.updateCache Cache.countValidation).Sound (.plain rules) (query :: path) :=
    checking.sound.recount _
  cases result with
  | error error =>
    rw [areUnchanged_cons here, bind_apply, served] at goes
    cases goes
    refine ⟨⟨.refl _, rfl⟩, ?_⟩
    rintro _ ⟨⟩
    exact ⟨rfl, rfl⟩
  | ok result =>
    have fetched := (serves_fetch (.plain rules) depth _ _ _ sound trivial trivial).2 _ _ served
    obtain ⟨known, there, -, goesOn⟩ := checking.served here served fetched
    rw [areUnchanged_next here served there] at goes
    split at goes
    · cases goes
      exact ⟨⟨.refl _, rfl⟩, nofun⟩
    · rename_i unchanged
      have split : entry.dependencies = (done ++ [dependency]) ++ rest := by simp [split]
      exact ⟨(goesOn (Nat.le_of_not_lt unchanged)).keeps derived value steady fresh split goes,
        nofun⟩

/-- While the dependencies of an older memo are checked, the memo waits. -/
theorem HasOlder.checking (older : HasOlder context query slot entry)
    (sound : context.Sound (.plain rules) path) (steady : rules.isVolatile query = false)
    (fresh : context.cycle? rules slot = none)
    (split : entry.dependencies = before ++ dependency :: rest)
    (ran : areUnchanged (fetch rules depth) entry.verifiedAt before
      (context.pushFrame slot .validating) = some (.ok true, there)) :
    Checking (.plain rules) path slot entry depth (context.pushFrame slot .validating) before
        there ∧
      (context.pushFrame slot .validating).Grows (.plain rules) (query :: path) there := by
  have here := Cache.memo?_of_find? older.found
  obtain ⟨shared, value⟩ := Option.isSome_iff_exists.mp older.value
  have unrepeated := sound.not_mem_of_cycle? (Cache.query?_eq here) fresh
  have initial := Checking.initial depth sound here older.derived older.stale
  obtain ⟨sound', grows, -, checked, -⟩ :=
    (meets_areUnchanged (serves_fetch _ depth) initial older.derived value steady
      (show entry.dependencies = [] ++ before ++ dependency :: rest from split) trivial
      unrepeated fun _ _ _ => trivial).2 _ _ ran
  have checking : Checking (.plain rules) path slot entry depth
      (context.pushFrame slot .validating) before there :=
    { sound := sound'
      inFlight := grows.busy ▸ initial.inFlight
      here := (grows.cache.busy slot initial.inFlight).trans initial.here
      checked := checked rfl
      ran }
  exact ⟨checking, grows⟩

/-- What a check brought up to date stays so, and an error of a dependency ends it. -/
theorem HasOlder.passes (older : HasOlder context query slot entry)
    (sound : context.Sound (.plain rules) path) (steady : rules.isVolatile query = false)
    (fresh : context.cycle? rules slot = none)
    (split : entry.dependencies = before ++ dependency :: rest)
    (ran : areUnchanged (fetch rules depth) entry.verifiedAt before
      (context.pushFrame slot .validating) = some (.ok true, there))
    (here : there.cache.memo? dependency = some memo)
    {result : Except QueryError (Nat × Shared (S.Value memo.query))}
    (served : fetch rules depth memo.query (there.updateCache Cache.countValidation) =
      some (result, later)) {outcome : Except QueryError Bool}
    (goes : areUnchanged (fetch rules depth) entry.verifiedAt entry.dependencies
      (context.pushFrame slot .validating) = some (outcome, last)) :
    Later later last ∧
      ∀ error, result = .error error → outcome = .error error ∧ last = later := by
  have atStart := Cache.memo?_of_find? older.found
  obtain ⟨shared, value⟩ := Option.isSome_iff_exists.mp older.value
  have unrepeated := sound.not_mem_of_cycle? (Cache.query?_eq atStart) fresh
  obtain ⟨checking, -⟩ := older.checking sound steady fresh split ran
  rw [split, areUnchanged_append ran] at goes
  exact checking.passes older.derived value steady unrepeated split here served goes

end Check

/-- A request that is made in the course of another one goes on from a sound context. -/
theorem Nests.sound (nests : Nests rules (fetch rules depth) query context other there)
    (sound : context.Sound (.plain rules) path) :
    there.Sound (.plain rules) (query :: path) ∧ Later context there := by
  cases nests with
  | read starts fresh proceeds =>
    obtain ⟨-, grows, -⟩ := starts.sound sound
    obtain ⟨grows', -, reads, progress⟩ := proceeds.progress (starts.begun sound)
    have begun := Later.of_grows grows'
    exact ⟨progress.sound, (Later.of_grows grows).trans begun⟩
  | @check _ _ _ _ _ there _ older steady fresh split ran here =>
    obtain ⟨checking, grows⟩ := older.checking sound steady fresh split ran
    have counted := grows_countValidation there (.plain rules) (query :: path)
    have begun := Later.of_grows (grows.trans counted)
    exact ⟨checking.sound.recount _, begun⟩

/-- What a nested request completed stays so, and its error is passed on at once. -/
theorem Nests.passes (nests : Nests rules (fetch rules depth) query context other there)
    (sound : context.Sound (.plain rules) path) (propagates : (rules.compute query).Propagates)
    {outcome : Except QueryError (Nat × Shared (S.Value other))}
    {result : Except QueryError (Nat × Shared (S.Value query))}
    (ran : fetch rules depth other there = some (outcome, later))
    (answered : answer rules (fetch rules depth) query context = some (result, last)) :
    Later later last ∧
      ∀ error, outcome = .error error → result = .error error ∧ last.cache = later.cache := by
  cases nests with
  | read starts fresh proceeds => exact starts.passes sound fresh proceeds propagates ran answered
  | @check slot dependency entry before rest _ _ older steady fresh split ran' here =>
    have atStart := Cache.memo?_of_find? older.found
    obtain ⟨shared, value, answers⟩ := older.answer_of_steady steady fresh
    rw [answers, bind_apply] at answered
    obtain ⟨⟨isUnchanged, after⟩, checked, goes⟩ := Option.bind_eq_some_iff.mp answered
    obtain ⟨sound', grows, here', upToDate, changed⟩ :=
      older.checked sound trivial trivial steady fresh checked
    have ended := checked
    rw [isUpToDate_eq atStart] at ended
    obtain ⟨⟨_, middle⟩, checks, same⟩ := Option.map_eq_some_iff.mp ended
    cases same
    obtain ⟨kept, failed⟩ := older.passes sound steady fresh split ran' here ran checks
    have left : Later later (middle.truncate context.depth) := kept
    cases isUnchanged with
    | error error =>
      cases goes
      refine ⟨left, ?_⟩
      rintro error rfl
      obtain ⟨same, rfl⟩ := failed error rfl
      cases same
      exact ⟨rfl, rfl⟩
    | ok isUnchanged =>
      have stale : ¬ entry.IsCurrent (middle.truncate context.depth).revision := by
        rw [grows.revision]
        exact older.stale
      have unrepeated := sound.not_mem_of_cycle? (Cache.query?_eq atStart) fresh
      rw [← grows.revision] at goes
      have fetched := (meets_checked (serves_fetch _ depth) sound' here' older.derived value stale
        steady trivial unrepeated trivial (fun unchanged => upToDate (congrArg Except.ok unchanged))
        fun isFalse => ⟨changed (congrArg Except.ok isFalse), by
          subst isFalse
          exact .changed older steady fresh checked⟩).2 _ _ goes
      refine ⟨left.trans (.of_grows fetched.grows), ?_⟩
      rintro error rfl
      cases (failed error rfl).1

/-- A request in the course of another one starts from a sound context, where all is known that was
known before. -/
theorem Involves.sound {inner : Nat}
    (involves : Involves rules depth query context inner other there)
    (sound : context.Sound (.plain rules) path) :
    (∃ path, there.Sound (.plain rules) path) ∧ Later context there := by
  induction involves with
  | self => exact ⟨⟨path, sound⟩, .refl _, rfl⟩
  | nested _ nests ih =>
    obtain ⟨⟨outer, sound⟩, before⟩ := ih
    obtain ⟨sound', begun⟩ := nests.sound sound
    exact ⟨⟨_, sound'⟩, before.trans begun⟩

/-- What it completes is still known at the end, and if it fails, that is the end. -/
theorem Involves.passes {inner : Nat} {outcome : Except QueryError (Nat × Shared (S.Value other))}
    {result : Except QueryError (Nat × Shared (S.Value query))}
    (involves : Involves rules depth query context inner other there)
    (propagates : ∀ query, (rules.compute query).Propagates)
    (sound : context.Sound (.plain rules) path)
    (ran : fetch rules inner other there = some (outcome, later))
    (answered : fetch rules depth query context = some (result, last)) :
    Later later last ∧
      ∀ error, outcome = .error error → result = .error error ∧ last.cache = later.cache := by
  induction involves generalizing later with
  | self =>
    cases ran.symm.trans answered
    exact ⟨⟨.refl _, rfl⟩, fun _ failed => ⟨failed, rfl⟩⟩
  | @nested inner other third there place involves nests ih =>
    obtain ⟨⟨outer, sound'⟩, -⟩ := involves.sound sound
    cases enclosing : fetch rules (inner + 1) other there with
    | none => cases (involves.exhausted enclosing).symm.trans answered
    | some ended =>
      obtain ⟨kept, failed⟩ := ih enclosing
      obtain ⟨kept', failed'⟩ := nests.passes sound' (propagates other) ran enclosing
      refine ⟨kept'.trans kept, ?_⟩
      rintro error raised
      obtain ⟨raised', same'⟩ := failed' error raised
      obtain ⟨raised'', same⟩ := failed error raised'
      exact ⟨raised'', same.trans same'⟩

/-- A query with a memo of the revision answers from it wherever it is requested. -/
theorem Involves.hit {inner : Nat} {entry : Entry S other} {shared : Shared (S.Value other)}
    (involves : Involves rules depth query context (inner + 1) other there)
    (sound : context.Sound (.plain rules) path)
    (here : context.cache.memo? slot = some ⟨other, entry⟩) (value : entry.value = some shared)
    (now : entry.verifiedAt = context.revision) :
    fetch rules (inner + 1) other there =
      some (.ok (slot, shared), there.updateCache Cache.countHit) := by
  obtain ⟨⟨outer, sound'⟩, grows, revision⟩ := involves.sound sound
  have there' := grows.memo?_of_isCurrent here ⟨by simp [value], now⟩
  exact answer_eq_of_current (sound'.accounted.wellFormed.find?_eq there') value
    (now.trans revision.symm)

/-- A request from outside fails as the query does; nothing is delivered. -/
theorem fetch_of_request {error : QueryError} (sound : context.Sound (.plain rules) [])
    (ran : request rules depth query context = some (.error error, last)) :
    fetch rules depth query context = some (.error error, last) := by
  cases fetched : fetch rules depth query context with
  | none => cases (access_of_none fetched).symm.trans ran
  | some result =>
    obtain ⟨outcome, after⟩ := result
    cases outcome with
    | error raised =>
      cases (access_of_error fetched).symm.trans ran
      rfl
    | ok result =>
      obtain ⟨diagnostics, answered⟩ := Context.exists_request_eq sound trivial fetched
      cases answered.symm.trans ran

end Run

end IncrementalFrontend
