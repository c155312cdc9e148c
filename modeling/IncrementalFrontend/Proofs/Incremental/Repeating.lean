import IncrementalFrontend.Proofs.Incremental.Depth
import IncrementalFrontend.Proofs.Incremental.Sessions
import IncrementalFrontend.Proofs.Incremental.Upkeep

/-!
Requests made again. What a failed request completed is verified in the revision and answers at
once, and what it did not complete is as it was. So in the same environment it comes to the same
error in the same way, and changes no memo.
-/
namespace IncrementalFrontend

variable {S : Signature} {rules : Rules S} {E : Type} {environment : S.World → E}
  {query : S.Query}

theorem Computation.ensures_true {α : Type} {growth : Growth rules}
    (known : ∀ world query, growth.knows world query)
    (asked : ∀ world request, growth.asks world request) (computation : Computation S α)
    (world : S.World) (reads : List Nat) (reports : List Diagnostic) :
    computation.Ensures growth world reads reports fun _ _ _ _ => True := by
  induction computation generalizing world reads reports with
  | pure | fail => trivial
  | read query next ih => exact ⟨known world query, fun _ _ _ _ => ih ..⟩
  | ask request next ih => exact ⟨asked world request, ih ..⟩
  | report diagnostic next ih => exact ih ..

def Rules.RepliesBy.upkeep (replies : rules.RepliesBy environment) : Upkeep rules where
  le world later := environment later = environment world
  knows _ _ := True
  asks _ _ := True
  refl _ := rfl
  trans first second := second.trans first
  serve := replies.environment_serve
  knows_mono _ _ := trivial
  holds _ _ _ _ _ := True
  holds_mono _ _ := trivial
  computes _ := Computation.ensures_true (fun _ _ => trivial) (fun _ _ => trivial) ..

theorem Rules.RepliesBy.holds (replies : rules.RepliesBy environment) (context : Context S) :
    replies.upkeep.Holds context :=
  fun _ _ _ => ⟨trivial, fun _ _ _ => trivial⟩

/-- The slots of a cache tell where each query is. -/
theorem Cache.memo?_congr {cache other : Cache S} (slots : other.slots = cache.slots) :
    other.memo? = cache.memo? := by
  funext slot
  rw [memo?, memo?, slots]

theorem Cache.find?_congr {cache other : Cache S} (slots : other.slots = cache.slots)
    (query : S.Query) : other.find? query = cache.find? query := by
  unfold find? entry?
  rw [slots, memo?_congr slots]

namespace Run

variable {depth slot : Nat} {path : List S.Query} {other : S.Query}
  {context there start after place last : Context S} {error : QueryError}

structure Unaltered (environment : S.World → E) (context place : Context S) : Prop where
  slots : place.cache.slots = context.cache.slots
  revision : place.revision = context.revision
  environment : environment place.world = environment context.world

namespace Unaltered

theorem refl (context : Context S) : Unaltered environment context context :=
  ⟨rfl, rfl, rfl⟩

theorem trans (first : Unaltered environment context there)
    (second : Unaltered environment there last) : Unaltered environment context last :=
  ⟨second.slots.trans first.slots, second.revision.trans first.revision,
    second.environment.trans first.environment⟩

theorem countHit (context : Context S) :
    Unaltered environment context (context.updateCache Cache.countHit) :=
  ⟨rfl, rfl, rfl⟩

theorem countValidation (context : Context S) :
    Unaltered environment context (context.updateCache Cache.countValidation) :=
  ⟨rfl, rfl, rfl⟩

theorem recordRead (context : Context S) (slot : Nat) :
    Unaltered environment context (context.recordRead slot) := by
  unfold Context.recordRead
  split
  · split <;> exact ⟨rfl, rfl, rfl⟩
  · exact .refl context

theorem report (context : Context S) (diagnostic : Diagnostic) :
    Unaltered environment context (context.report diagnostic) := by
  unfold Context.report
  split <;> exact ⟨rfl, rfl, rfl⟩

theorem later (unaltered : Unaltered environment context place) : Later context place := by
  refine ⟨⟨fun {slot query entry} here => ⟨entry, ?_, .refl entry⟩, ?_, ?_⟩, unaltered.revision⟩
  · rw [Cache.memo?_congr unaltered.slots, here]
  · exact fun slot member => absurd member List.not_mem_nil
  · funext query
    unfold Cache.input?
    rw [Cache.find?_congr unaltered.slots]

end Unaltered

/-- A query that was answered before answers from its memo. -/
theorem fetch_again {shared : Shared (S.Value other)} {path' : List S.Query}
    (sound : context.Sound (.plain rules) path) (sound' : place.Sound (.plain rules) path')
    (ran : fetch rules depth other context = some (.ok (slot, shared), after))
    (later : Later after place) :
    fetch rules depth other place = some (.ok (slot, shared), place.updateCache Cache.countHit) := by
  cases depth with
  | zero => cases ran
  | succ depth =>
    have fetched := (serves_fetch _ _ _ _ _ sound trivial trivial).2 _ _ ran
    obtain ⟨entry, here, value, now⟩ := fetched.ok slot shared rfl
    have kept := later.1.memo?_of_isCurrent here ⟨by simp [value], now⟩
    exact answer_eq_of_current (sound'.accounted.wellFormed.find?_eq kept) value
      (now.trans later.2.symm)

theorem environment_fetch (replies : rules.RepliesBy environment)
    {outcome : Except QueryError (Nat × Shared (S.Value query))}
    (ran : fetch rules depth query context = some (outcome, after)) :
    environment after.world = environment context.world :=
  (serves_upkeep replies.upkeep.foresees_self depth query context trivial (replies.holds context) _ _
    ran).1

theorem environment_access (replies : rules.RepliesBy environment)
    {outcome : Except QueryError (Shared (S.Value other))} (inQuery : context.isInQuery = true)
    (ran : access (fetch rules depth) other context = some (outcome, after)) :
    environment after.world = environment context.world := by
  obtain ⟨noted, shared, there, fetched, -, rfl⟩ | ⟨error, failed, -⟩ := access_cases inQuery ran
  · have recorded : Unaltered environment there (there.recordRead noted) := .recordRead there noted
    exact recorded.environment.trans (environment_fetch replies fetched)
  · exact environment_fetch replies failed

/-- Failed requests made again along the same path, where they ended, fail in the same way and alter
nothing. -/
def Repeats (rules : Rules S) (environment : S.World → E) (depth : Nat) : Prop :=
  ∀ ⦃path query error⦄ ⦃context after place : Context S⦄, context.Sound (.plain rules) path →
    place.Sound (.plain rules) path →
    fetch rules depth query context = some (.error error, after) →
    Unaltered environment after place →
      ∃ last, fetch rules depth query place = some (.error error, last) ∧
        Unaltered environment place last

/-- Any request made again along the same path gives the same and alters nothing. -/
theorem Repeats.fetching (repeats : Repeats rules environment depth)
    {outcome : Except QueryError (Nat × Shared (S.Value other))}
    (sound : context.Sound (.plain rules) path) (sound' : place.Sound (.plain rules) path)
    (ran : fetch rules depth other context = some (outcome, after)) (later : Later after place)
    (ended : ∀ error, outcome = .error error → Unaltered environment after place) :
    ∃ last, fetch rules depth other place = some (outcome, last) ∧
      Unaltered environment place last := by
  cases outcome with
  | ok result => exact ⟨_, fetch_again sound sound' ran later, .countHit place⟩
  | error error => exact repeats sound sound' ran (ended error rfl)

section

variable {outer outer' : List Frame} {slot' : Nat} {start' : Context S}
  {readings readings' : List (Reading S)} {reports reports' : List Diagnostic}

/-- What is verified stays so while a computation goes on. -/
theorem Proceeds.later {computation : Computation S (S.Value query)}
    {ending : Except QueryError (S.Value query)} (fresh : query ∉ path)
    (begun : Progress (.plain rules) path query slot outer [] [] [] start)
    (proceeds : Proceeds rules (fetch rules depth) (rules.compute query) start computation context
      readings reports)
    (ran : evaluate rules (fetch rules depth) computation context = some (ending, after)) :
    Later context after := by
  obtain ⟨-, remains, _, progress⟩ := proceeds.progress begun
  obtain ⟨grows, -⟩ := (meets_evaluate (serves_fetch _ depth) _ progress trivial trivial fresh
    (fun _ => trivial) remains).2 _ _ ran
  exact .of_grows grows

/-- A read made again within a query gives the same and alters nothing. -/
theorem Repeats.reading {reads reads' : List Nat} {next : Context S}
    {outcome : Except QueryError (Shared (S.Value other))}
    (repeats : Repeats rules environment depth)
    (progress : Progress (.plain rules) path query slot outer reads readings reports context)
    (progress' : Progress (.plain rules) path query slot' outer' reads' readings' reports' place)
    (ran : access (fetch rules depth) other context = some (outcome, next))
    (later : Later next place)
    (ended : ∀ error, outcome = .error error → Unaltered environment next place) :
    ∃ last, access (fetch rules depth) other place = some (outcome, last) ∧
      Unaltered environment place last := by
  have inQuery : context.isInQuery = true := by simp [Context.isInQuery, progress.active]
  have inQuery' : place.isInQuery = true := by simp [Context.isInQuery, progress'.active]
  obtain ⟨noted, shared, there, fetched, rfl, rfl⟩ | ⟨error, failed, rfl⟩ :=
    access_cases inQuery ran
  · have recorded : Unaltered environment there (there.recordRead noted) := .recordRead there noted
    obtain ⟨last, again, unaltered⟩ := repeats.fetching progress.sound progress'.sound fetched
      (recorded.later.trans later) fun _ failed => by cases failed
    exact ⟨_, access_of_ok inQuery' again, unaltered.trans (.recordRead last noted)⟩
  · obtain ⟨last, again, unaltered⟩ :=
      repeats progress.sound progress'.sound failed (ended error rfl)
    exact ⟨last, access_of_error again, unaltered⟩

/-- A computation comes to its error again. -/
theorem Repeats.computation (repeats : Repeats rules environment depth)
    (replies : rules.RepliesBy environment) (fresh : query ∉ path)
    (begun : Progress (.plain rules) path query slot outer [] [] [] start)
    (begun' : Progress (.plain rules) path query slot' outer' [] [] [] start')
    {computation : Computation S (S.Value query)} (propagates : computation.Propagates)
    (proceeds : Proceeds rules (fetch rules depth) (rules.compute query) start computation context
      readings reports)
    (proceeds' : Proceeds rules (fetch rules depth) (rules.compute query) start' computation place
      readings' reports')
    (ran : evaluate rules (fetch rules depth) computation context = some (.error error, after))
    (same : environment after.world = environment context.world)
    (ended : Unaltered environment after place) :
    ∃ last readings reports, Unaltered environment place last ∧
      Proceeds rules (fetch rules depth) (rules.compute query) start' (.fail error) last readings
        reports := by
  induction computation generalizing context place readings readings' reports reports' with
  | pure result => cases ran
  | fail raised =>
    cases ran
    exact ⟨place, _, _, .refl place, proceeds'⟩
  | read other next ih =>
    obtain ⟨-, -, _, progress⟩ := proceeds.progress begun
    obtain ⟨-, -, _, progress'⟩ := proceeds'.progress begun'
    rw [evaluate, attempt_bind_apply] at ran
    obtain ⟨⟨outcome, middle⟩, accessed, rest⟩ := Option.bind_eq_some_iff.mp ran
    cases outcome with
    | ok shared =>
      have kept := (proceeds.read accessed).later fresh begun rest
      obtain ⟨place', again, unaltered⟩ := repeats.reading progress progress' accessed
        (kept.trans ended.later) fun _ failed => by cases failed
      have inQuery : context.isInQuery = true := by simp [Context.isInQuery, progress.active]
      have world := environment_access replies inQuery accessed
      obtain ⟨last, _, _, unaltered', ends⟩ := ih _ (propagates.2 _) (proceeds.read accessed)
        (proceeds'.read again) rest (same.trans world.symm) (ended.trans unaltered)
      exact ⟨last, _, _, unaltered.trans unaltered', ends⟩
    | error raised =>
      have stops : next (.error raised) = .fail raised := propagates.1 raised
      have stopped : evaluate rules (fetch rules depth) (next (.error raised)) middle =
          some (.error raised, middle) := by
        rw [stops]
        rfl
      cases stopped.symm.trans rest
      obtain ⟨last, again, unaltered⟩ := repeats.reading progress progress' accessed ended.later
        fun _ _ => ended
      have ends : Proceeds rules (fetch rules depth) (rules.compute query) start'
          (next (.error error)) last _ reports' := proceeds'.read again
      rw [stops] at ends
      exact ⟨last, _, _, unaltered, ends⟩
  | ask request next ih =>
    have reply := replies.reply_eq request _ _ (ended.environment.trans same)
    have asked := proceeds'.ask
    rw [reply] at asked
    have unaltered : Unaltered environment place
        { place with world := (rules.serve request place.world).2 } :=
      ⟨rfl, rfl, replies.environment_serve request place.world⟩
    obtain ⟨last, _, _, unaltered', ends⟩ := ih _ (propagates _) proceeds.ask asked ran
      (same.trans (replies.environment_serve request context.world).symm) (ended.trans unaltered)
    exact ⟨last, _, _, unaltered.trans unaltered', ends⟩
  | report diagnostic next ih =>
    have unaltered : Unaltered environment place (place.report diagnostic) := .report ..
    have reported : Unaltered environment context (context.report diagnostic) := .report ..
    obtain ⟨last, _, _, unaltered', ends⟩ := ih propagates proceeds.report proceeds'.report ran
      (same.trans reported.environment.symm) (ended.trans unaltered)
    exact ⟨last, _, _, unaltered.trans unaltered', ends⟩

/-- The error of a query that is not in flight is that of its computation. -/
theorem Starts.evaluates (starts : Starts rules (fetch rules depth) query context slot start)
    (sound : context.Sound (.plain rules) path) (fresh : start.cycle? rules slot = none)
    (ran : fetch rules (depth + 1) query context = some (.error error, after)) :
    ∃ middle, evaluate rules (fetch rules depth) (rules.compute query)
        (start.pushFrame slot .computing) = some (.error error, middle) ∧
      after = { middle with active := start.active } := by
  obtain ⟨begun, -, entry, here, -⟩ := starts.sound sound
  have unrepeated := begun.not_mem_of_cycle? (Cache.query?_eq here) fresh
  have ran : execute rules (fetch rules depth) slot query start = some (.error error, after) :=
    starts.answer_eq.symm.trans ran
  cases evaluated : evaluate rules (fetch rules depth) (rules.compute query)
      (start.pushFrame slot .computing) with
  | none =>
    rw [execute_of_fresh fresh, evaluated] at ran
    cases ran
  | some result =>
    obtain ⟨ending, middle⟩ := result
    obtain ⟨grows, _, _, _, progress, -⟩ := (meets_evaluate (serves_fetch _ depth) _
      (starts.begun sound) trivial trivial unrepeated (fun _ => trivial) .initial).2 _ _ evaluated
    cases ending with
    | error raised =>
      cases (execute_of_error fresh evaluated progress.active).symm.trans ran
      exact ⟨middle, rfl, rfl⟩
    | ok value =>
      have there : middle.cache.memo? slot = some ⟨query, entry⟩ :=
        (grows.cache.busy slot List.mem_cons_self).trans here
      cases (execute_eq fresh evaluated progress.active there).symm.trans ran

/-- A query that fails when it is computed does so again. -/
theorem Repeats.starts (repeats : Repeats rules environment depth)
    (replies : rules.RepliesBy environment) (propagates : (rules.compute query).Propagates)
    (starts : Starts rules (fetch rules depth) query context slot start)
    (starts' : Starts rules (fetch rules depth) query place slot' start')
    (sound : context.Sound (.plain rules) path) (sound' : place.Sound (.plain rules) path)
    (ran : fetch rules (depth + 1) query context = some (.error error, after))
    (same : environment after.world = environment start.world)
    (ended : Unaltered environment after start') :
    ∃ last, fetch rules (depth + 1) query place = some (.error error, last) ∧
      Unaltered environment start' last := by
  obtain ⟨begun, -, entry, here, -⟩ := starts.sound sound
  obtain ⟨begun', -, entry', here', -⟩ := starts'.sound sound'
  have cycles := begun.cycle?_eq (Cache.query?_eq here)
  rw [← begun'.cycle?_eq (Cache.query?_eq here')] at cycles
  have computes : fetch rules (depth + 1) query place =
      execute rules (fetch rules depth) slot' query start' := starts'.answer_eq
  rw [computes]
  cases cycle : start.cycle? rules slot with
  | some labels =>
    have refused := starts.answer_eq.trans (execute_of_cycle cycle)
    cases refused.symm.trans ran
    exact ⟨start', execute_of_cycle (cycles.symm.trans cycle), .refl start'⟩
  | none =>
    have fresh := begun.not_mem_of_cycle? (Cache.query?_eq here) cycle
    obtain ⟨middle, evaluated, rfl⟩ := starts.evaluates sound cycle ran
    obtain ⟨last, _, _, unaltered, ends⟩ := repeats.computation replies fresh (starts.begun sound)
      (starts'.begun sound') propagates .start .start evaluated same
      ⟨ended.slots, ended.revision, ended.environment⟩
    have failed := ends.evaluate_eq
    obtain ⟨-, -, _, progress⟩ := ends.progress (starts'.begun sound')
    refine ⟨_, execute_of_error (cycles.symm.trans cycle) failed progress.active, ?_⟩
    exact ⟨unaltered.slots, unaltered.revision, unaltered.environment⟩

section Check

variable {entry : Entry S query} {shared : Shared (S.Value query)} {done rest : List Nat}
  {outcome : Except QueryError Bool}

/-- A check made again ends in the same way. -/
theorem Repeats.checking (repeats : Repeats rules environment depth)
    (checking : Checking (.plain rules) path slot entry depth start done context)
    (derived : entry.origin = .derived) (value : entry.value = some shared)
    (steady : rules.isVolatile query = false) (fresh : query ∉ path)
    (split : entry.dependencies = done ++ rest)
    (ran : areUnchanged (fetch rules depth) entry.verifiedAt rest context = some (outcome, after))
    (sound : place.Sound (.plain rules) (query :: path)) (later : Later after place)
    (ended : ∀ error, outcome = .error error → Unaltered environment after place) :
    ∃ last, areUnchanged (fetch rules depth) entry.verifiedAt rest place = some (outcome, last) ∧
      Unaltered environment place last := by
  induction rest generalizing context done place with
  | nil =>
    cases ran
    exact ⟨place, rfl, .refl place⟩
  | cons dependency rest ih =>
    obtain ⟨other, assigned, -⟩ := checking.sound.accounted.next_dependency checking.here derived
      value steady split checking.checked trivial fresh
    obtain ⟨known, there⟩ := Cache.memo?_of_query? assigned
    have goes := ran
    rw [areUnchanged_cons there, bind_apply] at goes
    obtain ⟨⟨result, middle⟩, served, goes⟩ := Option.bind_eq_some_iff.mp goes
    have counted : (context.updateCache Cache.countValidation).Sound (.plain rules)
        (query :: path) := checking.sound.recount _
    have counted' : (place.updateCache Cache.countValidation).Sound (.plain rules)
        (query :: path) := sound.recount _
    have recounted : Unaltered environment place (place.updateCache Cache.countValidation) :=
      .countValidation place
    have fetched := (serves_fetch _ depth _ _ _ counted trivial trivial).2 _ _ served
    obtain ⟨stays, -⟩ := checking.passes derived value steady fresh split there served ran
    cases result with
    | error error =>
      cases goes
      have unaltered := ended error rfl
      have counts := grows_countValidation context (.plain rules) (query :: path)
      have grows := counts.trans (fetched.grows.within (List.suffix_cons _ _))
      obtain ⟨known', there'⟩ := Cache.memo?_of_query? (unaltered.later.1.query?
        (grows.cache.query? assigned))
      obtain ⟨last, failed, unaltered'⟩ :=
        repeats counted counted' served (unaltered.trans recounted)
      refine ⟨last, ?_, recounted.trans unaltered'⟩
      rw [areUnchanged_cons there', bind_of_error failed]
    | ok result =>
      obtain ⟨known', here, current, goesOn⟩ := checking.served there served fetched
      rw [areUnchanged_next there served here] at ran
      have next : entry.dependencies = (done ++ [dependency]) ++ rest := by
        rw [split, List.append_assoc]
        rfl
      have kept := stays.trans later
      have here' := kept.1.memo?_of_isCurrent here current
      have hit := fetch_again counted counted' served (kept.trans recounted.later)
      have unaltered := recounted.trans (.countHit _)
      rw [areUnchanged_next here' hit here']
      split at ran
      · rename_i changed
        cases ran
        rw [if_pos changed]
        exact ⟨_, rfl, unaltered⟩
      · rename_i unchanged
        rw [if_neg unchanged]
        have answered := (serves_fetch _ depth _ _ _ counted' trivial trivial).2 _ _ hit
        obtain ⟨last, ran', unaltered'⟩ := ih (goesOn (Nat.le_of_not_lt unchanged)) next ran
          answered.sound (later.trans unaltered.later)
          fun error failed => (ended error failed).trans unaltered
        exact ⟨last, ran', unaltered.trans unaltered'⟩

end Check

/-- A memo of an earlier revision does not answer at once where its query fails. -/
theorem HasOlder.of_error {fetch : (query : S.Query) → Run S (Nat × Shared (S.Value query))}
    {entry : Entry S query} {shared : Shared (S.Value query)}
    (found : context.cache.find? query = some (slot, entry)) (value : entry.value = some shared)
    (failed : answer rules fetch query context = some (.error error, after)) :
    HasOlder context query slot entry := by
  have older : entry.verifiedAt ≠ context.revision := fun now => by
    cases (answer_eq_of_current found value now).symm.trans failed
  refine ⟨found, by simp [value], older, ?_⟩
  cases origin : entry.origin with
  | derived => rfl
  | input => cases (answer_eq_of_input found value older origin).symm.trans failed

/-- Whether an older memo is up to date turns out as before. -/
theorem Repeats.upToDate {entry : Entry S query} {outcome : Except QueryError Bool}
    (repeats : Repeats rules environment depth) (steady : rules.isVolatile query = false)
    (older : HasOlder context query slot entry) (older' : HasOlder place query slot entry)
    (sound : context.Sound (.plain rules) path) (sound' : place.Sound (.plain rules) path)
    (fresh : context.cycle? rules slot = none)
    (ran : isUpToDate (fetch rules depth) slot entry.verifiedAt context = some (outcome, after))
    (later : Later after place)
    (ended : ∀ error, outcome = .error error → Unaltered environment after place) :
    ∃ last, isUpToDate (fetch rules depth) slot entry.verifiedAt place = some (outcome, last) ∧
      Unaltered environment place last := by
  have here := Cache.memo?_of_find? older.found
  have here' := Cache.memo?_of_find? older'.found
  obtain ⟨shared, value⟩ := Option.isSome_iff_exists.mp older.value
  have unrepeated := sound.not_mem_of_cycle? (Cache.query?_eq here) fresh
  rw [isUpToDate_eq here] at ran
  obtain ⟨⟨_, middle⟩, checked, same⟩ := Option.map_eq_some_iff.mp ran
  cases same
  have checking := Checking.initial depth sound here older.derived older.stale
  obtain ⟨last, checked', unaltered⟩ := repeats.checking checking older.derived value steady
    unrepeated rfl checked (sound'.push here' older'.derived older'.stale .validating) later
    fun error failed => ⟨(ended error failed).slots, (ended error failed).revision,
      (ended error failed).environment⟩
  refine ⟨last.truncate place.depth, ?_, unaltered.slots, unaltered.revision,
    unaltered.environment⟩
  rw [isUpToDate_eq here', checked']
  rfl

/-- An older memo stands in the way of the same error again. -/
theorem Repeats.older {entry : Entry S query} (repeats : Repeats rules environment depth)
    (replies : rules.RepliesBy environment) (propagates : (rules.compute query).Propagates)
    (steady : rules.isVolatile query = false) (older : HasOlder context query slot entry)
    (older' : HasOlder place query slot entry) (sound : context.Sound (.plain rules) path)
    (sound' : place.Sound (.plain rules) path)
    (ran : fetch rules (depth + 1) query context = some (.error error, after))
    (unaltered : Unaltered environment after place) :
    ∃ last, fetch rules (depth + 1) query place = some (.error error, last) ∧
      Unaltered environment place last := by
  have cycles := sound.cycle?_eq (Cache.query?_eq (Cache.memo?_of_find? older.found))
  rw [← sound'.cycle?_eq (Cache.query?_eq (Cache.memo?_of_find? older'.found))] at cycles
  cases cycle : context.cycle? rules slot with
  | some labels =>
    cases (older.answer_of_cycle steady cycle).symm.trans ran
    exact ⟨place, older'.answer_of_cycle steady (cycles.symm.trans cycle), .refl place⟩
  | none =>
    have cycle' := cycles.symm.trans cycle
    obtain ⟨_, -, answers⟩ : ∃ shared, entry.value = some shared ∧
        fetch rules (depth + 1) query context = _ := older.answer_of_steady steady cycle
    obtain ⟨_, -, answers'⟩ : ∃ shared, entry.value = some shared ∧
        fetch rules (depth + 1) query place = _ := older'.answer_of_steady steady cycle'
    have goes := answers.symm.trans ran
    rw [bind_apply] at goes answers'
    obtain ⟨⟨outcome, middle⟩, checked, goes⟩ := Option.bind_eq_some_iff.mp goes
    match outcome with
    | .error raised =>
      cases goes
      obtain ⟨last, checked', unaltered'⟩ := repeats.upToDate steady older older' sound sound' cycle
        checked unaltered.later fun _ _ => unaltered
      exact ⟨last, by rw [answers', checked']; rfl, unaltered'⟩
    | .ok true => cases goes
    | .ok false =>
      have starts := Starts.changed older steady cycle checked
      have foresees := replies.upkeep.foresees_self
      have world := (agrees_isUpToDate foresees (serves_upkeep foresees depth) entry.verifiedAt
        (replies.holds context) _ _ checked).1
      obtain ⟨start', checked', moved⟩ := repeats.upToDate steady older older' sound sound' cycle
        checked ((starts.later sound ran).trans unaltered.later) nofun
      obtain ⟨last, failed, unaltered'⟩ := repeats.starts replies propagates starts
        (.changed older' steady cycle' checked') sound sound' ran
        ((environment_fetch replies ran).trans world.symm) (unaltered.trans moved)
      exact ⟨last, failed, moved.trans unaltered'⟩

/-- Requests nested to any depth fail again in the same way. -/
theorem repeats (replies : rules.RepliesBy environment)
    (propagates : ∀ query, (rules.compute query).Propagates) (depth : Nat) :
    Repeats rules environment depth := by
  induction depth with
  | zero => exact fun _ _ _ _ _ _ _ _ ran => nomatch ran
  | succ depth ih =>
    intro path query error context after place sound sound' ran unaltered
    have world := environment_fetch replies ran
    have fetched := (serves_fetch _ _ _ _ _ sound trivial trivial).2 _ _ ran
    obtain ⟨slot, entry, here, stale⟩ := fetched.stale error rfl
    have here' : place.cache.memo? slot = some ⟨query, entry⟩ := by
      rw [Cache.memo?_congr unaltered.slots, here]
    have found := sound'.accounted.wellFormed.find?_eq here'
    have changed := fetched.grows.changes.of_stale sound.accounted here
      (fetched.grows.revision ▸ stale)
    obtain before | ⟨absent, new⟩ := changed
    · have known := sound.accounted.wellFormed.find?_eq before
      cases value : entry.value with
      | none =>
        exact ih.starts replies (propagates query) (.unset known value) (.unset found value) sound
          sound' ran world unaltered
      | some shared =>
        have older := HasOlder.of_error known value ran
        have older' : HasOlder place query slot entry := by
          refine ⟨found, older.value, ?_, older.derived⟩
          rw [unaltered.revision, fetched.grows.revision]
          exact older.older
        cases steady : rules.isVolatile query with
        | true =>
          exact ih.starts replies (propagates query) (.volatile older steady)
            (.volatile older' steady) sound sound' ran world unaltered
        | false =>
          exact ih.older replies (propagates query) steady older older' sound sound' ran unaltered
    · cases new
      exact ih.starts replies (propagates query) (.new (Cache.find?_eq_none absent))
        (.unset found rfl) sound sound' ran world unaltered

end

end Run

theorem Circuit.repliesBy : Circuit.rules.RepliesBy fun _ => () :=
  ⟨fun _ _ => rfl, fun _ _ _ _ => rfl⟩

namespace Context

variable {drift : S.World → S.World → Prop} {context after : Context S}

/-- A failed request leaves no query in flight and delivers nothing. Each query that it began and
did not complete keeps its memo, or has one without a value. Made again at once, the request fails
in the same way and changes no memo, and what it completed before answers from the memos. -/
theorem Reachable.error_commits_nothing (propagates : ∀ query, (rules.compute query).Propagates)
    (reachable : context.Reachable rules drift) {depth : Nat} {error : QueryError}
    (ran : Run.request rules depth query context = some (.error error, after)) :
    after.active = [] ∧ after.sink = context.sink ∧
    (∀ inner other there failure later,
      Run.Involves rules depth query context inner other there →
      Run.fetch rules inner other there = some (.error failure, later) →
        after.cache.find? other = context.cache.find? other ∨
          context.cache.find? other = none ∧ ∃ slot, after.cache.find? other =
            some (slot, ⟨none, .derived, context.revision, context.revision, [], [], 0⟩)) ∧
    (rules.RepliesBy environment →
      (∃ last, after.Gets rules query (.error error) last) ∧
        ∀ outcome last, after.Gets rules query outcome last →
          outcome = .error error ∧ ∀ other, last.cache.find? other = after.cache.find? other) ∧
    ∀ inner other there result later,
      Run.Involves rules depth query context inner other there →
      Run.fetch rules inner other there = some (.ok result, later) →
        ∀ again inner place, Run.Involves rules again query after (inner + 1) other place →
          Run.fetch rules (inner + 1) other place =
            some (.ok result, place.updateCache Cache.countHit) := by
  have sound := reachable.sound_plain
  have fetched := Run.fetch_of_request sound ran
  have answered : Answered (.plain rules) query context (.error error) after :=
    (meets_request sound trivial).2 _ _ ran
  refine ⟨answered.sound.active_eq, (answered.error error rfl).2, ?_, ?_, ?_⟩
  · intro inner other there failure later involves failed
    obtain ⟨⟨path, sound'⟩, -, revision⟩ := involves.sound sound
    have same := ((involves.passes propagates sound failed fetched).2 failure rfl).2
    have nested := (Run.serves_fetch _ inner _ _ _ sound' trivial trivial).2 _ _ failed
    obtain ⟨slot, entry, here, stale⟩ := nested.stale failure rfl
    rw [nested.grows.revision, revision] at stale
    rw [← same] at here
    have found := answered.sound.accounted.wellFormed.find?_eq here
    obtain before | ⟨absent, new⟩ := answered.changes.of_stale sound.accounted here stale
    · exact .inl (found.trans (sound.accounted.wellFormed.find?_eq before).symm)
    · cases new
      exact .inr ⟨Cache.find?_eq_none absent, slot, found⟩
  · intro replies
    obtain ⟨last, failed, unaltered⟩ :=
      Run.repeats replies propagates depth sound answered.sound fetched (.refl after)
    have gets : after.Gets rules query (.error error) last := ⟨depth, Run.access_of_error failed⟩
    refine ⟨⟨last, gets⟩, fun outcome last' gets' => ?_⟩
    obtain ⟨rfl, rfl⟩ := gets.unique gets'
    exact ⟨rfl, Cache.find?_congr unaltered.slots⟩
  · intro inner other there result later involves completed again inner' place involves'
    obtain ⟨⟨path, sound'⟩, -⟩ := involves.sound sound
    obtain ⟨grows, revision⟩ := (involves.passes propagates sound completed fetched).1
    have nested := (Run.serves_fetch _ inner _ _ _ sound' trivial trivial).2 _ _ completed
    obtain ⟨slot, shared⟩ := result
    obtain ⟨entry, here, value, now⟩ := nested.ok slot shared rfl
    have kept := grows.memo?_of_isCurrent here ⟨by simp [value], now⟩
    exact involves'.hit answered.sound kept value (now.trans revision.symm)

/-- The lamp keeps the answer that it had before the switch was turned on, also when it is asked for
again. -/
theorem Reachable.error_commits_nothing_lamp : ∃ after last slot entry,
    Circuit.resumed.Gets Circuit.rules Circuit.Part.lamp (.error (.cycle ["lamp", "lamp"])) after ∧
      after.Gets Circuit.rules Circuit.Part.lamp (.error (.cycle ["lamp", "lamp"])) last ∧
      after.active = [] ∧ entry.value.isSome ∧
      Circuit.resumed.cache.find? Circuit.Part.lamp = some (slot, entry) ∧
      after.cache.find? Circuit.Part.lamp = some (slot, entry) ∧
      last.cache.find? Circuit.Part.lamp = some (slot, entry) := by
  have failed : (match Run.request Circuit.rules 4 Circuit.Part.lamp Circuit.resumed with
      | some (.error error, _) => decide (error = .cycle ["lamp", "lamp"])
      | _ => false) = true := by decide +kernel
  have known : (Circuit.resumed.cache.find? Circuit.Part.lamp).any
      (fun found => found.2.value.isSome) = true := by decide +kernel
  obtain ⟨⟨slot, entry⟩, found, isSome⟩ := Option.any_eq_true _ _ |>.mp known
  split at failed
  · rename_i error after ran
    obtain rfl := of_decide_eq_true failed
    have reachable := Circuit.reachable_resumed
    obtain ⟨idle, -, keeps, repeats, -⟩ :=
      Reachable.error_commits_nothing Circuit.propagates reachable ran
    obtain ⟨⟨last, gets⟩, same⟩ := repeats Circuit.repliesBy
    have kept := keeps _ _ _ _ _ .self (Run.fetch_of_request reachable.sound_plain ran)
    obtain here | ⟨none, -⟩ := kept
    · have there := here.trans found
      exact ⟨after, last, slot, entry, ⟨4, ran⟩, gets, idle, isSome, found, there,
        ((same _ last gets).2 _).trans there⟩
    · cases none.symm.trans found
  · cases failed

end Context

end IncrementalFrontend
