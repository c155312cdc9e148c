import IncrementalFrontend.Proofs.Incremental.InFlight

/-!
What requests guarantee. A request keeps a sound context sound, answers with a memo verified in the
revision, and fails only as the account says. Nested requests are served by a smaller depth, so the
guarantee follows by induction on the depth.
-/
namespace IncrementalFrontend

namespace Run

variable {S : Signature} {rules : Rules S} {account : Account rules} {path : List S.Query}
  {query : S.Query} {slot : Nat} {context before middle after : Context S}

structure Fetched (account : Account rules) (path : List S.Query) (query : S.Query)
    (before : Context S) (outcome : Except QueryError (Nat × Shared (S.Value query)))
    (after : Context S) : Prop where
  sound : after.Sound account path
  grows : before.Grows account (query :: path) after
  active : after.active = before.active
  ok : ∀ slot shared, outcome = .ok (slot, shared) → ∃ entry,
    after.cache.memo? slot = some ⟨query, entry⟩ ∧ entry.value = some shared ∧
      entry.verifiedAt = after.revision
  error : ∀ error, outcome = .error error →
    after.cache.Breaks account after.revision path query error
  stale : ∀ error, outcome = .error error → ∃ slot entry,
    after.cache.memo? slot = some ⟨query, entry⟩ ∧ ¬ entry.IsCurrent after.revision

namespace Fetched

variable {outcome : Except QueryError (Nat × Shared (S.Value query))}

theorem failed (sound : after.Sound account path) (grows : before.Grows account (query :: path) after)
    (active : after.active = before.active) {error : QueryError}
    (breaks : after.cache.Breaks account after.revision path query error) {entry : Entry S query}
    (here : after.cache.memo? slot = some ⟨query, entry⟩)
    (stale : ¬ entry.IsCurrent after.revision) :
    Fetched account path query before (.error error) after where
  sound := sound
  grows := grows
  active := active
  ok := by simp
  error := by
    rintro _ ⟨⟩
    exact breaks
  stale _ _ := ⟨slot, entry, here, stale⟩

theorem of_cycle? (sound : context.Sound account path) {entry : Entry S query}
    (here : context.cache.memo? slot = some ⟨query, entry⟩) (derived : entry.origin = .derived)
    (stale : ¬ entry.IsCurrent context.revision) (labels : List String)
    (cycle : context.cycle? rules slot = some labels) :
    Fetched account path query context (.error (.cycle labels)) context := by
  rw [sound.cycle?_eq (Cache.query?_eq here)] at cycle
  split at cycle
  · rename_i repeated
    cases cycle
    exact .failed sound (.refl _) rfl
      (.repeated (sound.accounted.free_of_derived here derived) repeated) here stale
  · cases cycle

theorem trans (grows : before.Grows account (query :: path) middle) (active : middle.active = before.active)
    (fetched : Fetched account path query middle outcome after) :
    Fetched account path query before outcome after where
  sound := fetched.sound
  grows := grows.trans fetched.grows
  active := fetched.active.trans active
  ok := fetched.ok
  error := fetched.error
  stale := fetched.stale

theorem of_renews (sound : context.Sound account path) {old new : Entry S query}
    {shared : Shared (S.Value query)}
    (renews : context.cache.Renews account context.revision slot old new shared)
    (idle : slot ∉ context.busy) (counts : CacheCounts) (nextIdentity : Nat)
    (changes : context.cache.Changes account context.revision (query :: path) context.nextIdentity
      { context.cache.put slot ⟨query, new⟩ with counts } nextIdentity) :
    Fetched account path query context (.ok (slot, shared))
      { context with
        cache := { context.cache.put slot ⟨query, new⟩ with counts }
        nextIdentity } := by
  have growth := (renews.grows sound.accounted idle).trans (.recount _ _ _ _ counts)
  have grows : context.Grows account (query :: path)
      { context with cache := { context.cache.put slot ⟨query, new⟩ with counts }, nextIdentity } :=
    ⟨growth, changes, rfl, rfl, rfl, rfl⟩
  have accounted := (renews.accounted sound.accounted).recount counts
  refine ⟨sound.grow grows accounted sound.world, grows, rfl, ?_, by simp, by simp⟩
  rintro _ _ ⟨⟩
  exact ⟨new, renews.memo?_self, renews.value, renews.verifiedAt⟩

theorem of_hit (sound : context.Sound account path) {entry : Entry S query}
    {shared : Shared (S.Value query)} (here : context.cache.memo? slot = some ⟨query, entry⟩)
    (value : entry.value = some shared) (now : entry.verifiedAt = context.revision) :
    Fetched account path query context (.ok (slot, shared))
      (context.updateCache Cache.countHit) := by
  have grows : context.Grows account (query :: path) (context.updateCache Cache.countHit) :=
    ⟨.recount _ _ _ _ _, .recount _ _ .refl, rfl, rfl, rfl, rfl⟩
  refine ⟨sound.recount _, grows, rfl, ?_, by simp, by simp⟩
  rintro _ _ ⟨⟩
  exact ⟨entry, here, value, now⟩

end Fetched

def Serves (account : Account rules) (depth : Nat) : Prop :=
  ∀ path query context, context.Sound account path → account.requested path query →
    account.journal.made depth query context →
      (fetch rules depth query).Meets context (account.settles depth path query)
        (Fetched account path query context)

/-- What a computing query did so far: what it read and reported, as its frame tells. -/
structure Progress (account : Account rules) (path : List S.Query) (query : S.Query) (slot : Nat)
    (outer : List Frame) (reads : List Nat) (readings : List (Reading S))
    (reports : List Diagnostic)
    (context : Context S) : Prop where
  sound : context.Sound account (query :: path)
  active : context.active = ⟨slot, .computing, reads, reports⟩ :: outer
  assigned : reads.map context.cache.query? = (Reading.firstQueries readings).map some
  current : ∀ slot ∈ reads, ∃ other known, context.cache.memo? slot = some ⟨other, known⟩ ∧
    known.IsCurrent context.revision
  answers : ∀ reading ∈ readings, ∀ value, reading.outcome = .ok value →
    account.answer reading.query value
  failures : ∀ reading ∈ readings, ∀ error, reading.outcome = .error error →
    context.cache.Breaks account context.revision (query :: path) reading.query error

namespace Progress

variable {outer : List Frame} {reads : List Nat} {readings : List (Reading S)}
  {reports : List Diagnostic}

theorem serve (progress : Progress account path query slot outer reads readings reports context)
    (request : S.Request) :
    Progress account path query slot outer reads readings reports
      { context with world := (rules.serve request context.world).2 } where
  sound := ⟨progress.sound.accounted, account.world_serve progress.sound.world,
    progress.sound.inFlight, progress.sound.waiting⟩
  active := progress.active
  assigned := progress.assigned
  current := progress.current
  answers := progress.answers
  failures := progress.failures

theorem report (progress : Progress account path query slot outer reads readings reports context)
    (diagnostic : Diagnostic) :
    Progress account path query slot outer reads readings (reports ++ [diagnostic])
        (context.report diagnostic) ∧
      context.Grows account (query :: path) (context.report diagnostic) := by
  have reported : context.report diagnostic =
      { context with active := ⟨slot, .computing, reads, reports ++ [diagnostic]⟩ :: outer } := by
    simp [Context.report, progress.active, Context.addToFrames, Frame.addDiagnostic]
  have busy : (context.report diagnostic).busy = context.busy := by
    simp [reported, Context.busy, progress.active]
  rw [reported] at busy ⊢
  have grows : context.Grows account (query :: path)
      { context with active := ⟨slot, .computing, reads, reports ++ [diagnostic]⟩ :: outer } :=
    ⟨.refl _, .refl, rfl, busy, rfl, rfl⟩
  exact ⟨⟨progress.sound.grow grows progress.sound.accounted progress.sound.world, rfl,
    progress.assigned, progress.current, progress.answers, progress.failures⟩, grows⟩

/-- What was read is verified in the revision. -/
theorem hasCurrent (progress : Progress account path query slot outer reads readings reports context)
    {reading : Reading S} (member : reading ∈ readings) {value : S.Value reading.query}
    (answered : reading.outcome = .ok value) :
    context.cache.HasCurrent context.revision reading.query := by
  have inside := Reading.mem_firstQueries.mpr ⟨value, Reading.mem_of_ok member answered⟩
  obtain ⟨place, read, assigned⟩ := Cache.exists_assigned progress.assigned inside
  obtain ⟨other, known, there, current⟩ := progress.current place read
  rw [Cache.query?_eq there] at assigned
  cases assigned
  exact ⟨place, known, there, current⟩

/-- The query read another one, which was answered or failed. -/
theorem fetched (progress : Progress account path query slot outer reads readings reports context)
    {other : S.Query} {outcome : Except QueryError (Nat × Shared (S.Value other))}
    (fetched : Fetched account (query :: path) other context outcome after) :
    after.active = ⟨slot, .computing, reads, reports⟩ :: outer ∧
      reads.map after.cache.query? = (Reading.firstQueries readings).map some ∧
      (∀ slot ∈ reads, ∃ other known, after.cache.memo? slot = some ⟨other, known⟩ ∧
        known.IsCurrent after.revision) ∧
      ∀ reading ∈ readings, ∀ error, reading.outcome = .error error →
        after.cache.Breaks account after.revision (query :: path) reading.query error := by
  refine ⟨fetched.active.trans progress.active,
    fetched.grows.cache.map_query? progress.assigned, ?_, ?_⟩
  · intro place member
    obtain ⟨third, known, here, current⟩ := progress.current place member
    exact ⟨third, known, fetched.grows.cache.memo?_of_isCurrent here current,
      fetched.grows.revision ▸ current⟩
  · intro reading member error failed
    rw [fetched.grows.revision]
    exact (progress.failures reading member error failed).grow fetched.grows.cache

theorem readError (progress : Progress account path query slot outer reads readings reports context)
    {other : S.Query} {error : QueryError}
    (fetched : Fetched account (query :: path) other context (.error error) after) :
    Progress account path query slot outer reads (readings ++ [⟨other, .error error⟩]) reports
      after := by
  obtain ⟨active, kept, current, failures⟩ := progress.fetched fetched
  refine ⟨fetched.sound, active, ?_, current, ?_, ?_⟩
  · rw [Reading.firstQueries_error]
    exact kept
  · refine List.forall_mem_append.mpr ⟨progress.answers, List.forall_mem_singleton.mpr ?_⟩
    simp
  · refine List.forall_mem_append.mpr ⟨failures, List.forall_mem_singleton.mpr ?_⟩
    rintro _ ⟨⟩
    exact fetched.error error rfl

theorem readOk (progress : Progress account path query slot outer reads readings reports context)
    {other : S.Query} {place : Nat} {shared : Shared (S.Value other)}
    (fetched : Fetched account (query :: path) other context (.ok (place, shared)) after) :
    (∃ reads, Progress account path query slot outer reads (readings ++ [⟨other, .ok shared.value⟩])
        reports (after.recordRead place)) ∧
      context.Grows account (query :: path) (after.recordRead place) := by
  obtain ⟨active, kept, current, failures⟩ := progress.fetched fetched
  obtain ⟨entry, here, value, now⟩ := fetched.ok place shared rfl
  have hasValue : entry.value.isSome := by simp [value]
  have known : place ∈ reads ↔ other ∈ Reading.firstQueries readings := by
    have injective : Function.Injective (some : S.Query → _) := fun _ _ => Option.some.inj
    rw [← List.mem_map_of_injective injective, ← kept, List.mem_map]
    constructor
    · exact fun member => ⟨place, member, Cache.query?_eq here⟩
    · rintro ⟨place', member, there⟩
      exact fetched.sound.accounted.wellFormed.unique there (Cache.query?_eq here) ▸ member
  let more := if place ∈ reads then reads else reads ++ [place]
  have recorded : after.recordRead place =
      { after with active := ⟨slot, .computing, more, reports⟩ :: outer } := by
    simp only [Context.recordRead, active, if_true, Frame.addRead, more]
    split <;> rfl
  have busy : (after.recordRead place).busy = after.busy := by
    simp [recorded, Context.busy, active]
  rw [recorded] at busy ⊢
  have grows : after.Grows account (query :: path)
      { after with active := ⟨slot, .computing, more, reports⟩ :: outer } :=
    ⟨.refl _, .refl, rfl, busy, rfl, rfl⟩
  have sound := fetched.sound.grow grows fetched.sound.accounted fetched.sound.world
  refine ⟨⟨more, sound, rfl, ?_, ?_, ?_, ?_⟩,
    (fetched.grows.within (List.suffix_cons _ _)).trans grows⟩
  · rw [Reading.firstQueries_ok]
    by_cases repeated : place ∈ reads
    · simp only [more, if_pos repeated, if_pos (known.mp repeated)]
      exact kept
    · simp only [more, if_neg repeated, if_neg (mt known.mpr repeated), List.map_append, kept]
      exact congrArg₂ (· ++ ·) rfl (congrArg (fun one => [one]) (Cache.query?_eq here))
  · have last : ∀ slot ∈ [place], ∃ other known, after.cache.memo? slot = some ⟨other, known⟩ ∧
        known.IsCurrent after.revision :=
      List.forall_mem_singleton.mpr ⟨other, entry, here, hasValue, now⟩
    simp only [more]
    split
    · exact current
    · exact List.forall_mem_append.mpr ⟨current, last⟩
  · refine List.forall_mem_append.mpr ⟨progress.answers, List.forall_mem_singleton.mpr ?_⟩
    rintro _ ⟨⟩
    exact fetched.sound.accounted.current here value now
  · refine List.forall_mem_append.mpr ⟨failures, List.forall_mem_singleton.mpr ?_⟩
    simp

end Progress

structure Remains (account : Account rules) (depth : Nat) (query : S.Query) (start : Context S)
    (computation : Computation S (S.Value query)) (context : Context S)
    (readings : List (Reading S))
    (reports : List Diagnostic) : Prop where
  takes : ∀ {readings' reports' ending},
    computation.Takes account.replies readings' reports' ending →
      (rules.compute query).Takes account.replies (readings ++ readings') (reports ++ reports')
        ending
  proceeds : Proceeds rules (fetch rules depth) (rules.compute query) start computation context
    readings reports

namespace Remains

variable {depth : Nat} {start : Context S} {readings : List (Reading S)} {reports : List Diagnostic}

theorem initial : Remains account depth query start (rules.compute query) start [] [] :=
  ⟨id, .start⟩

theorem ends {computation : Computation S (S.Value query)}
    {ending : Except QueryError (S.Value query)}
    (remains : Remains account depth query start computation context readings reports)
    (takes : computation.Takes account.replies [] [] ending) :
    (rules.compute query).Takes account.replies readings reports ending := by
  have takes := remains.takes takes
  rwa [List.append_nil, List.append_nil] at takes

theorem read {other : S.Query}
    {next : Except QueryError (S.Value other) → Computation S (S.Value query)}
    {outcome : Except QueryError (Shared (S.Value other))}
    (remains : Remains account depth query start (.read other next) context readings reports)
    (accessed : access (fetch rules depth) other context = some (outcome, middle)) :
    Remains account depth query start (next (outcome.map (·.value))) middle
      (readings ++ [⟨other, outcome.map (·.value)⟩]) reports where
  takes takes := by
    rw [List.append_assoc]
    exact remains.takes (.read takes)
  proceeds := remains.proceeds.read accessed

theorem ask {request : S.Request} {next : S.Reply request → Computation S (S.Value query)}
    (remains : Remains account depth query start (.ask request next) context readings reports)
    (replied : account.replies request (rules.serve request context.world).1) :
    Remains account depth query start (next (rules.serve request context.world).1)
      { context with world := (rules.serve request context.world).2 } readings reports where
  takes takes := remains.takes (.ask replied takes)
  proceeds := remains.proceeds.ask

theorem report {diagnostic : Diagnostic} {next : Computation S (S.Value query)}
    (remains : Remains account depth query start (.report diagnostic next) context readings
      reports) :
    Remains account depth query start next (context.report diagnostic) readings
      (reports ++ [diagnostic]) where
  takes takes := by
    rw [List.append_assoc]
    exact remains.takes (.report takes)
  proceeds := remains.proceeds.report

end Remains

theorem grows_countValidation (context : Context S) (account : Account rules)
    (stack : List S.Query) :
    context.Grows account stack (context.updateCache Cache.countValidation) :=
  ⟨.recount _ _ _ _ _, .recount _ _ .refl, rfl, rfl, rfl, rfl⟩

structure Checking (account : Account rules) (path : List S.Query) (slot : Nat)
    (entry : Entry S query) (depth : Nat) (start : Context S) (done : List Nat)
    (context : Context S) : Prop where
  sound : context.Sound account (query :: path)
  inFlight : slot ∈ context.busy
  here : context.cache.memo? slot = some ⟨query, entry⟩
  checked : context.cache.Checked context.revision entry.verifiedAt done
  ran : areUnchanged (fetch rules depth) entry.verifiedAt done start = some (.ok true, context)

namespace Checking

variable {depth : Nat} {start : Context S} {done : List Nat} {entry : Entry S query}

theorem initial (depth : Nat) (sound : context.Sound account path)
    (here : context.cache.memo? slot = some ⟨query, entry⟩) (derived : entry.origin = .derived)
    (stale : ¬ entry.IsCurrent context.revision) :
    Checking account path slot entry depth (context.pushFrame slot .validating) []
      (context.pushFrame slot .validating) where
  sound := sound.push here derived stale .validating
  inFlight := List.mem_cons_self
  here := here
  checked := List.forall_mem_nil _
  ran := rfl

/-- A request for the next dependency brings it up to date, and shows whether it changed. -/
theorem served (checking : Checking account path slot entry depth start done context)
    {dependency : Nat} {memo : Memo S} {result : Nat × Shared (S.Value memo.query)}
    (there : context.cache.memo? dependency = some memo)
    (served : fetch rules depth memo.query (context.updateCache Cache.countValidation) =
      some (.ok result, after))
    (fetched : Fetched account (query :: path) memo.query
      (context.updateCache Cache.countValidation) (.ok result) after) :
    ∃ known, after.cache.memo? dependency = some ⟨memo.query, known⟩ ∧
      known.IsCurrent after.revision ∧ (known.changedAt ≤ entry.verifiedAt →
        Checking account path slot entry depth start (done ++ [dependency]) after) := by
  have counted := grows_countValidation context account (query :: path)
  have grows := counted.trans (fetched.grows.within (List.suffix_cons _ _))
  obtain ⟨place, answer⟩ := result
  obtain ⟨known, there', value, now⟩ := fetched.ok place answer rfl
  have assigned : context.cache.query? dependency = some memo.query := Cache.query?_eq there
  obtain rfl : place = dependency :=
    fetched.sound.accounted.wellFormed.unique (Cache.query?_eq there')
      (grows.cache.query? assigned)
  have current : known.IsCurrent after.revision := ⟨by simp [value], now⟩
  refine ⟨known, there', current, fun unchanged => ?_⟩
  have checked : after.cache.Checked after.revision entry.verifiedAt (done ++ [place]) := by
    refine List.forall_mem_append.mpr ⟨?_, List.forall_mem_singleton.mpr ?_⟩
    · rw [grows.revision]
      exact grows.cache.checked checking.checked
    · exact ⟨memo.query, known, there', current, unchanged⟩
  exact
    { sound := fetched.sound
      inFlight := grows.busy ▸ checking.inFlight
      here := (grows.cache.busy slot checking.inFlight).trans checking.here
      checked
      ran := areUnchanged_concat checking.ran there served there' (Nat.not_lt.mpr unchanged) }

end Checking

section

variable {depth : Nat} (serves : Serves account depth)

include serves

theorem meets_access {outer : List Frame} {reads : List Nat} {readings : List (Reading S)}
    {reports : List Diagnostic}
    (progress : Progress account path query slot outer reads readings reports context)
    {other : S.Query} (requested : account.requested (query :: path) other)
    (made : account.journal.made depth other context) :
    (access (fetch rules depth) other).Meets context (account.settles depth (query :: path) other)
      fun outcome after => context.Grows account (query :: path) after ∧ ∃ reads,
        Progress account path query slot outer reads
          (readings ++ [⟨other, outcome.map (·.value)⟩]) reports after := by
  have inQuery : context.isInQuery = true := by
    simp [Context.isInQuery, progress.active]
  unfold access
  refine meets_get_bind (meets_bind ((serves _ _ _ progress.sound requested made).mono ?_))
  intro outcome after fetched
  cases outcome with
  | error error =>
    exact ⟨fetched.grows.within (List.suffix_cons _ _), reads, progress.readError fetched⟩
  | ok result =>
    obtain ⟨place, shared⟩ := result
    simp only [inQuery, if_true]
    obtain ⟨recorded, grows⟩ := progress.readOk fetched
    exact meets_modify_bind (meets_pure ⟨grows, recorded⟩)

/-- Evaluating a computation takes one of its courses. -/
theorem meets_evaluate (computation : Computation S (S.Value query)) {start : Context S}
    {outer : List Frame} {reads : List Nat} {readings : List (Reading S)}
    {reports : List Diagnostic}
    (progress : Progress account path query slot outer reads readings reports context)
    (requested : account.requested path query) (free : account.free query) (fresh : query ∉ path)
    (nested : ∀ {other there readings reports}
      {next : Except QueryError (S.Value other) → Computation S (S.Value query)},
      Proceeds rules (fetch rules depth) (rules.compute query) start (.read other next) there
        readings reports → account.journal.made depth other there)
    (remains : Remains account depth query start computation context readings reports) :
    (evaluate rules (fetch rules depth) computation).Meets context
      (account.settles (depth + 1) path query)
      fun outcome after => context.Grows account (query :: path) after ∧ ∃ reads readings reports,
        Progress account path query slot outer reads readings reports after ∧
          (rules.compute query).Takes account.replies readings reports outcome ∧
          Proceeds rules (fetch rules depth) (rules.compute query) start (.ended outcome) after
            readings reports := by
  induction computation generalizing context reads readings reports with
  | pure result =>
    exact meets_pure ⟨.refl _, reads, _, _, progress, remains.ends (.pure result),
      remains.proceeds⟩
  | fail error =>
    exact meets_throw ⟨.refl _, reads, _, _, progress, remains.ends (.fail error),
      remains.proceeds⟩
  | read other next ih =>
    -- Some course goes on with this read, whatever it will give, so the query is requested here.
    have total (request : S.Request) : ∃ reply, account.replies request reply :=
      ⟨_, account.replies_serve progress.sound.world⟩
    obtain ⟨_, _, _, takes⟩ := (next (.error .stackMismatch)).exists_takes total
    obtain ⟨below, settles⟩ := account.requested_next requested free fresh
      (remains.takes (.read takes)) progress.answers
    have accesses := (meets_access serves progress below (nested remains.proceeds)).total_mono
      (settles depth)
    refine meets_attempt_bind (accesses.ran.mono ?_)
    rintro outcome middle ⟨accessed, grows, reads, progress⟩
    refine (ih _ progress (remains.read accessed)).mono ?_
    rintro outcome last ⟨grows', rest⟩
    exact ⟨grows.trans grows', rest⟩
  | ask request next ih =>
    have remains := remains.ask (account.replies_serve progress.sound.world)
    refine meets_serve_bind ((ih _ (progress.serve request) remains).mono ?_)
    rintro outcome last ⟨grows, rest⟩
    have served : context.Grows account (query :: path)
        { context with world := (rules.serve request context.world).2 } :=
      ⟨.refl _, .refl, rfl, rfl, rfl, rfl⟩
    exact ⟨served.trans grows, rest⟩
  | report diagnostic next ih =>
    obtain ⟨reported, grows⟩ := progress.report diagnostic
    refine meets_modify_bind ((ih reported remains.report).mono ?_)
    rintro outcome last ⟨grows', rest⟩
    exact ⟨grows.trans grows', rest⟩

/-- Checking dependencies brings them up to date until one turns out to have changed. -/
theorem meets_areUnchanged {entry : Entry S query} {shared : Shared (S.Value query)}
    {start : Context S} {done rest remaining : List Nat}
    (checking : Checking account path slot entry depth start done context)
    (derived : entry.origin = .derived) (value : entry.value = some shared)
    (steady : rules.isVolatile query = false)
    (split : entry.dependencies = done ++ rest ++ remaining)
    (requested : account.requested path query) (fresh : query ∉ path)
    (nested : ∀ {before dependency rest there memo},
      entry.dependencies = before ++ dependency :: rest →
      areUnchanged (fetch rules depth) entry.verifiedAt before start = some (.ok true, there) →
      there.cache.memo? dependency = some memo →
      account.journal.made depth memo.query (there.updateCache Cache.countValidation)) :
    (areUnchanged (fetch rules depth) entry.verifiedAt rest).Meets context
      (account.settles (depth + 1) path query)
      fun outcome after => after.Sound account (query :: path) ∧
        context.Grows account (query :: path) after ∧ after.active = context.active ∧
        (outcome = .ok true →
          after.cache.Checked after.revision entry.verifiedAt (done ++ rest)) ∧
        (outcome = .ok false → after.cache.Reason rules after.revision entry) ∧
        ∀ error, outcome = .error error →
          after.cache.Breaks account after.revision path query error := by
  -- The dependencies checked so far did not change, so the next one is still read.
  induction rest generalizing context done with
  | nil =>
    rw [List.append_nil]
    exact meets_pure ⟨checking.sound, .refl _, rfl, fun _ => checking.checked, by simp, by simp⟩
  | cons dependency rest ih =>
    have next : entry.dependencies = done ++ dependency :: (rest ++ remaining) := by
      rw [split, List.append_assoc]
      rfl
    have accounted := checking.sound.accounted
    obtain ⟨other, assigned, below, settles, past, _, _, _, takes, answers⟩ :=
      accounted.next_dependency checking.here derived value steady next checking.checked requested
        fresh
    obtain ⟨known, there⟩ := Cache.memo?_of_query? assigned
    have counted := grows_countValidation context account (query :: path)
    have sound : (context.updateCache Cache.countValidation).Sound account (query :: path) :=
      checking.sound.recount _
    unfold areUnchanged
    refine meets_updateCache_bind (meets_memo_bind there (meets_bind ?_))
    have fetches := (serves _ _ _ sound below (nested next checking.ran there)).total_mono
      (settles depth)
    refine fetches.ran.mono ?_
    rintro outcome after ⟨served, fetched⟩
    have grows := counted.trans (fetched.grows.within (List.suffix_cons _ _))
    cases outcome with
    | error error =>
      refine ⟨fetched.sound, grows, fetched.active, by simp, by simp, ?_⟩
      rintro _ ⟨⟩
      refine .checked (accounted.free_of_derived checking.here derived) fresh
        (grows.cache.knows ⟨slot, Cache.query?_eq checking.here⟩) takes ?_ (fetched.error error rfl)
      intro reading member value ended
      rw [grows.revision]
      exact (answers reading member value ended).imp_right grows.cache.hasCurrent
    | ok result =>
      obtain ⟨known', there', current, goesOn⟩ := checking.served there served fetched
      refine meets_memo_bind there' ?_
      split
      · rename_i changed
        have read : dependency ∈ entry.dependencies := by simp [split]
        exact meets_pure ⟨fetched.sound, grows, fetched.active, by simp,
          fun _ => .changed read there' current changed, by simp⟩
      · rename_i unchanged
        have split' : entry.dependencies = (done ++ [dependency]) ++ rest ++ remaining := by
          rw [next]
          simp
        refine (ih (goesOn (Nat.le_of_not_lt unchanged)) split').mono ?_
        rw [List.append_assoc]
        rintro outcome last ⟨sound, grows', active, others⟩
        exact ⟨sound, grows.trans grows', active.trans fetched.active, others⟩

theorem meets_isUpToDate {entry : Entry S query} {shared : Shared (S.Value query)}
    (sound : context.Sound account path) (here : context.cache.memo? slot = some ⟨query, entry⟩)
    (derived : entry.origin = .derived) (value : entry.value = some shared)
    (stale : ¬ entry.IsCurrent context.revision) (steady : rules.isVolatile query = false)
    (requested : account.requested path query) (fresh : query ∉ path)
    (nested : ∀ {before dependency rest there memo},
      entry.dependencies = before ++ dependency :: rest →
      areUnchanged (fetch rules depth) entry.verifiedAt before
        (context.pushFrame slot .validating) = some (.ok true, there) →
      there.cache.memo? dependency = some memo →
      account.journal.made depth memo.query (there.updateCache Cache.countValidation)) :
    (isUpToDate (fetch rules depth) slot entry.verifiedAt).Meets context
      (account.settles (depth + 1) path query)
      fun outcome after => after.Sound account path ∧ context.Grows account (query :: path) after ∧
        after.active = context.active ∧ after.cache.memo? slot = some ⟨query, entry⟩ ∧
        (outcome = .ok true →
          after.cache.Checked after.revision entry.verifiedAt entry.dependencies) ∧
        (outcome = .ok false → after.cache.Reason rules after.revision entry) ∧
        ∀ error, outcome = .error error →
          after.cache.Breaks account after.revision path query error := by
  unfold isUpToDate
  refine meets_memo_bind here (meets_get_bind (meets_modify_bind (meets_attempt_bind ?_)))
  have checking := Checking.initial depth sound here derived stale
  refine (meets_areUnchanged serves checking derived value steady (List.append_nil _).symm requested
    fresh nested).mono ?_
  rintro outcome after ⟨sound', grows, active, upToDate, changed, failed⟩
  have truncated : after.truncate context.depth = { after with active := context.active } := by
    simp [Context.truncate, Context.depth, active, Context.pushFrame]
  have here' : after.cache.memo? slot = some ⟨query, entry⟩ := by
    rw [grows.cache.busy slot checking.inFlight]
    exact here
  refine meets_modify_bind ?_
  rw [truncated]
  cases outcome with
  | ok isUnchanged =>
    exact meets_pure ⟨sound'.pop grows.busy, grows.pop, rfl, here', upToDate, changed, by simp⟩
  | error error =>
    exact meets_throw ⟨sound'.pop grows.busy, grows.pop, rfl, here', by simp, by simp, failed⟩

omit serves in
theorem storeResult_apply (context : Context S) {entry : Entry S query} (value : S.Value query)
    (frame : Frame) (here : context.cache.memo? slot = some ⟨query, entry⟩) :
    let isBackdated := entry.isBackdated rules value
    let shared : Shared (S.Value query) := ⟨context.nextIdentity, value⟩
    let entry' := entry.recomputed rules context.revision shared frame
    storeResult rules slot query value frame context = some (.ok shared,
      { context with
        cache := (context.cache.put slot ⟨query, entry'⟩).countExecution isBackdated
        nextIdentity := context.nextIdentity + 1 }) := by
  have found := Cache.entry?_eq_some_iff.mpr here
  unfold storeResult
  rw [bind_of_eq rfl, found]
  rfl

omit serves in
theorem Progress.renews {outer : List Frame} {reads : List Nat} {readings : List (Reading S)}
    {reports : List Diagnostic}
    (progress : Progress account path query slot outer reads readings reports context)
    {entry : Entry S query} (here : context.cache.memo? slot = some ⟨query, entry⟩)
    (derived : entry.origin = .derived) (stale : ¬ entry.IsCurrent context.revision)
    (free : account.free query) (shared : Shared (S.Value query))
    (takes : (rules.compute query).Takes account.replies readings reports (.ok shared.value))
    (executed : account.journal.Executed slot query (entry.executions + 1) readings reports
      shared) :
    context.cache.Renews account context.revision slot entry
      (entry.recomputed rules context.revision shared ⟨slot, .computing, reads, reports⟩)
      shared where
  live := here
  stale := stale
  origin := rfl
  verifiedAt := rfl
  changed := by
    unfold Entry.recomputed
    split
    · rename_i backdated
      obtain ⟨old, stored, unchanged⟩ := Option.any_eq_true _ _ |>.mp backdated
      refine .inr ⟨rfl, fun exact => ?_⟩
      rw [stored, Option.map_some, Option.map_some, account.unchanged exact unchanged]
    · exact .inl rfl
  value := rfl
  answer := account.answer_computed free takes progress.answers
  ofInput isInput := by
    rw [derived] at isInput
    cases isInput
  dependency := progress.current
  course _ := ⟨readings, executed, takes, progress.assigned,
    fun _ known member => progress.answers _ member known rfl⟩

omit serves in
/-- A computation that came to its end leaves its frame, and its value is stored. -/
theorem meets_finish (total : Prop) {after : Context S} {reads : List Nat}
    {readings : List (Reading S)} {reports : List Diagnostic}
    {outcome : Except QueryError (S.Value query)} {entry : Entry S query}
    (here : context.cache.memo? slot = some ⟨query, entry⟩) (derived : entry.origin = .derived)
    (stale : ¬ entry.IsCurrent context.revision)
    (reason : context.cache.Reason rules context.revision entry)
    (requested : account.requested path query) (free : account.free query) (fresh : query ∉ path)
    (grows : (context.pushFrame slot .computing).Grows account (query :: path) after)
    (progress : Progress account path query slot context.active reads readings reports after)
    (takes : (rules.compute query).Takes account.replies readings reports outcome)
    (executed : ∀ value, outcome = .ok value → account.journal.Executed slot query
      (entry.executions + 1) readings reports ⟨after.nextIdentity, value⟩) :
    (finish rules slot context.depth query outcome).Meets after total
      (Fetched account path query { after with active := context.active }) := by
  have here' : after.cache.memo? slot = some ⟨query, entry⟩ :=
    (grows.cache.busy slot List.mem_cons_self).trans here
  have revision : after.revision = context.revision := grows.revision
  have stale' : ¬ entry.IsCurrent after.revision := revision ▸ stale
  let popped : Context S := { after with active := context.active }
  have sound : popped.Sound account path := by
    refine progress.sound.pop (show after.busy = slot :: popped.busy from ?_)
    simp [Context.busy, progress.active, popped]
  refine meets_popFrame_bind progress.active (meets_ofExcept_bind ?_ ?_)
  · rintro error rfl
    exact .failed sound (.refl _) rfl (.computed free fresh ⟨slot, Cache.query?_eq here'⟩ takes
      (fun reading member value ended => ⟨progress.answers reading member value ended,
        progress.hasCurrent member ended⟩) progress.failures) here' stale'
  · rintro value rfl
    have idle : slot ∉ popped.busy :=
      fun member => fresh (sound.mem_path member (Cache.query?_eq here'))
    have renews := progress.renews here' derived stale' free ⟨after.nextIdentity, value⟩ takes
      (executed value rfl)
    have reason' : after.cache.Reason rules after.revision entry :=
      revision ▸ grows.cache.reason reason
    refine Meets.congr ?_ (bind_of_eq (storeResult_apply popped value _ here') _)
    exact meets_pure (.of_renews sound renews idle _ _
      (.compute .refl renews derived reason' requested (List.suffix_refl _)))

theorem meets_execute {entry : Entry S query} (sound : context.Sound account path)
    (here : context.cache.memo? slot = some ⟨query, entry⟩) (derived : entry.origin = .derived)
    (stale : ¬ entry.IsCurrent context.revision)
    (reason : context.cache.Reason rules context.revision entry)
    (requested : account.requested path query)
    {origin : Context S} (made : account.journal.made (depth + 1) query origin)
    (starts : Starts rules (fetch rules depth) query origin slot context) :
    (execute rules (fetch rules depth) slot query).Meets context
      (account.settles (depth + 1) path query) (Fetched account path query context) := by
  have free := sound.accounted.free_of_derived here derived
  unfold execute
  refine meets_checkCycle_bind (Fetched.of_cycle? sound here derived stale) ?_
  intro none
  have fresh := sound.not_mem_of_cycle? (Cache.query?_eq here) none
  have pushed := sound.push here derived stale .computing
  have start : Progress account path query slot context.active [] [] []
      (context.pushFrame slot .computing) :=
    ⟨pushed, rfl, rfl, by simp, by simp, by simp⟩
  refine meets_get_bind (meets_modify_bind (meets_attempt_bind ?_))
  refine (meets_evaluate serves _ start requested free fresh
    (fun proceeds => account.journal.nested made (.read starts none proceeds)) .initial).mono ?_
  rintro outcome after ⟨grows, reads, readings, reports, progress, takes, proceeds⟩
  refine (meets_finish _ here derived stale reason requested free fresh grows progress takes ?_).mono
    fun _ _ fetched => .trans grows.pop rfl fetched
  rintro value rfl
  exact ⟨depth, origin, context, entry, after, made, starts, none, here, rfl, proceeds, rfl⟩

omit serves in
/-- A memo that was found to be up to date is verified. -/
theorem meets_verify (total : Prop) {entry : Entry S query} {shared : Shared (S.Value query)}
    (sound : context.Sound account path) (here : context.cache.memo? slot = some ⟨query, entry⟩)
    (idle : slot ∉ context.busy)
    (renews : context.cache.Renews account context.revision slot entry
      { entry with verifiedAt := context.revision } shared)
    (checked : entry.origin = .derived → rules.isVolatile query = false ∧
      context.cache.Checked context.revision entry.verifiedAt entry.dependencies)
    (requested : account.requested path query) :
    (do
      updateCache (·.verify slot context.revision)
      return (slot, shared) : Run S (Nat × Shared (S.Value query))).Meets context total
        (Fetched account path query context) := by
  refine meets_updateCache_bind (meets_pure ?_)
  have fetched := Fetched.of_renews sound renews idle context.cache.counts context.nextIdentity
    (.verify .refl renews checked requested (List.suffix_refl _))
  rw [Context.updateCache, Cache.verify_eq here]
  exact fetched

/-- Once its dependencies are checked, an older memo is verified, or its query is computed. -/
theorem meets_checked {entry : Entry S query} {shared : Shared (S.Value query)} {isUnchanged : Bool}
    (sound : context.Sound account path) (here : context.cache.memo? slot = some ⟨query, entry⟩)
    (derived : entry.origin = .derived) (value : entry.value = some shared)
    (stale : ¬ entry.IsCurrent context.revision) (steady : rules.isVolatile query = false)
    (requested : account.requested path query) (fresh : query ∉ path)
    {origin : Context S} (made : account.journal.made (depth + 1) query origin)
    (upToDate : isUnchanged = true →
      context.cache.Checked context.revision entry.verifiedAt entry.dependencies)
    (changed : isUnchanged = false → context.cache.Reason rules context.revision entry ∧
      Starts rules (fetch rules depth) query origin slot context) :
    (do
      if isUnchanged then
        updateCache (·.verify slot context.revision)
        return (slot, shared)
      execute rules (fetch rules depth) slot query : Run S (Nat × Shared (S.Value query))).Meets
        context (account.settles (depth + 1) path query) (Fetched account path query context) := by
  cases isUnchanged with
  | false =>
    obtain ⟨reason, starts⟩ := changed rfl
    exact meets_execute serves sound here derived stale reason requested made starts
  | true =>
    have idle : slot ∉ context.busy :=
      fun member => fresh (sound.mem_path member (Cache.query?_eq here))
    have renews := sound.accounted.renews_of_checked here derived value steady stale (upToDate rfl)
    exact meets_verify _ sound here idle renews (fun _ => ⟨steady, upToDate rfl⟩) requested

/-- An older memo that is not volatile is checked, unless its query is in flight. -/
theorem meets_older {entry : Entry S query} (sound : context.Sound account path)
    (older : HasOlder context query slot entry) {shared : Shared (S.Value query)}
    (value : entry.value = some shared) (steady : rules.isVolatile query = false)
    (requested : account.requested path query)
    (made : account.journal.made (depth + 1) query context) :
    (do
      checkCycle rules slot
      if ← isUpToDate (fetch rules depth) slot entry.verifiedAt then
        updateCache (·.verify slot context.revision)
        return (slot, shared)
      execute rules (fetch rules depth) slot query : Run S (Nat × Shared (S.Value query))).Meets
        context (account.settles (depth + 1) path query) (Fetched account path query context) := by
  have here := Cache.memo?_of_find? older.found
  have stale : ¬ entry.IsCurrent context.revision := fun current => older.older current.2
  refine meets_checkCycle_bind (Fetched.of_cycle? sound here older.derived stale) ?_
  intro none
  have fresh := sound.not_mem_of_cycle? (Cache.query?_eq here) none
  have checks := meets_isUpToDate serves sound here older.derived value stale steady requested fresh
    fun split ran there => account.journal.nested made (.check older steady none split ran there)
  refine meets_bind (checks.ran.mono ?_)
  rintro outcome after ⟨checked, sound', grows, active, here', upToDate, changed, failed⟩
  have stale' : ¬ entry.IsCurrent after.revision := by
    rw [grows.revision]
    exact stale
  cases outcome with
  | error error => exact .failed sound' grows active (failed error rfl) here' stale'
  | ok isUnchanged =>
    rw [← grows.revision]
    have concluded := meets_checked serves sound' here' older.derived value stale' steady requested
      fresh made (fun unchanged => upToDate (congrArg Except.ok unchanged))
      fun isFalse => ⟨changed (congrArg Except.ok isFalse), by
        subst isFalse
        exact .changed older steady none checked⟩
    exact concluded.mono fun _ _ fetched => .trans grows active fetched

theorem meets_fromMemo {entry : Entry S query} {shared : Shared (S.Value query)}
    (sound : context.Sound account path) (found : context.cache.find? query = some (slot, entry))
    (value : entry.value = some shared) (requested : account.requested path query)
    (made : account.journal.made (depth + 1) query context) :
    (fromMemo rules (fetch rules depth) slot query entry shared).Meets context
      (account.settles (depth + 1) path query) (Fetched account path query context) := by
  have here := Cache.memo?_of_find? found
  unfold fromMemo
  refine meets_get_bind ?_
  by_cases now : entry.verifiedAt = context.revision
  · rw [if_pos now]
    exact meets_updateCache_bind (meets_pure (.of_hit sound here value now))
  rw [if_neg now]
  have stale : ¬ entry.IsCurrent context.revision := fun current => now current.2
  by_cases isInput : entry.origin = .input
  · rw [if_pos isInput]
    -- Only computed queries are in flight.
    have idle : slot ∉ context.busy := by
      intro member
      obtain ⟨_, _, found, derived, -⟩ := sound.waiting slot member
      rw [here] at found
      cases found
      rw [isInput] at derived
      cases derived
    have renews := sound.accounted.renews_of_input here isInput value stale
    exact meets_verify _ sound here idle renews (by simp [isInput]) requested
  rw [if_neg isInput]
  have derived : entry.origin = .derived := by
    cases origin : entry.origin with
    | derived => rfl
    | input => exact absurd origin isInput
  have older : HasOlder context query slot entry := ⟨found, by simp [value], now, derived⟩
  cases steady : rules.isVolatile query with
  | true =>
    exact meets_execute serves sound here derived stale (.volatile steady) requested made
      (.volatile older steady)
  | false => exact meets_older serves sound older value steady requested made

omit serves in
/-- A query that has no memo gets one, which has no value yet. -/
theorem sound_insert (sound : context.Sound account path)
    (absent : ∀ slot, context.cache.query? slot ≠ some query)
    (requested : account.requested path query) :
    let inserted := context.cache.insert query .derived context.revision
    { context with cache := inserted.2 }.Sound account path ∧
      context.Grows account (query :: path) { context with cache := inserted.2 } ∧
      inserted.2.memo? inserted.1 = some (Cache.newMemo query .derived context.revision) := by
  intro inserted
  have accounted := sound.accounted
  have live : ∀ slot ∈ context.busy, (context.cache.memo? slot).isSome := by
    intro slot member
    obtain ⟨_, _, here, -⟩ := sound.waiting slot member
    simp [here]
  have grows : context.Grows account (query :: path) { context with cache := inserted.2 } :=
    ⟨.insert accounted.wellFormed absent _ _ _ live,
      .insert .refl absent requested (List.suffix_refl _), rfl, rfl, rfl, rfl⟩
  exact ⟨sound.grow grows (accounted.insert absent) sound.world, grows,
    accounted.wellFormed.memo?_insert_self ..⟩

omit serves in
theorem derived_of_none (sound : context.Sound account path) {entry : Entry S query}
    (here : context.cache.memo? slot = some ⟨query, entry⟩) (none : entry.value = none) :
    entry.origin = .derived := by
  cases origin : entry.origin with
  | derived => rfl
  | input => simpa [none] using (sound.accounted.ofInput here origin).1

theorem meets_answer (sound : context.Sound account path) (requested : account.requested path query)
    (made : account.journal.made (depth + 1) query context) :
    (answer rules (fetch rules depth) query).Meets context (account.settles (depth + 1) path query)
      (Fetched account path query context) := by
  unfold answer
  refine meets_get_bind ?_
  cases found : context.cache.find? query with
  | none =>
    obtain ⟨sound', grows, here⟩ := sound_insert sound (Cache.query?_ne_of_find? found) requested
    have executed := meets_execute serves sound' here rfl nofun (.unset rfl) requested made
      (.new found)
    refine Meets.congr ?_ (bind_of_eq rfl _)
    exact executed.mono fun outcome after fetched => .trans grows rfl fetched
  | some result =>
    obtain ⟨slot, entry⟩ := result
    have here := Cache.memo?_of_find? found
    dsimp only
    cases value : entry.value with
    | none =>
      have stale : ¬ entry.IsCurrent context.revision := by simp [Entry.IsCurrent, value]
      exact meets_execute serves sound here (derived_of_none sound here value) stale (.unset value)
        requested made (.unset found value)
    | some shared => exact meets_fromMemo serves sound found value requested made

end

/-- Requests at any depth are served. -/
theorem serves_fetch (account : Account rules) (depth : Nat) :
    Serves account depth := by
  induction depth with
  | zero => exact fun path query context _ _ _ => meets_exhausted (account.settles_zero path query)
  | succ depth ih =>
    exact fun path query context sound requested made => meets_answer ih sound requested made

end Run

end IncrementalFrontend
