import Mathlib.Algebra.BigOperators.Group.Finset.Basic
import Mathlib.Algebra.Ring.Nat
import IncrementalFrontend.Proofs.Incremental.Fates
import IncrementalFrontend.Proofs.Incremental.Sessions

/-!
How many dependencies requests check. For each query that is verified in the revision its memo is
checked once, up to the first dependency that changed. A request that fails checks the memos of the
queries that fail with it, each up to the next one, and does so whenever it is made.
-/
namespace IncrementalFrontend

variable {S : Signature} {rules : Rules S} {E : Type} {environment : S.World → E}

instance View.decidableIsCurrent {query : S.Query} (view : View S query) (revision : Revision) :
    Decidable (view.IsCurrent revision) :=
  inferInstanceAs (Decidable (_ ∧ _))

namespace Cache

def isVerified (cache : Cache S) (revision : Revision) (query : S.Query) : Bool :=
  (cache.view? query).any (·.IsCurrent revision)

def isSteady (cache : Cache S) (revision since : Revision) (query : S.Query) : Bool :=
  (cache.view? query).any fun known => known.IsCurrent revision ∧ known.changedAt ≤ since

def checkedOf (cache : Cache S) (revision since : Revision) : List S.Query → Nat
  | [] => 0
  | query :: rest =>
    if cache.isSteady revision since query then cache.checkedOf revision since rest + 1 else 1

variable {revision since : Revision} {cache after : Cache S} {query : S.Query}

theorem isVerified_eq (same : after.view? query = cache.view? query) :
    after.isVerified revision query = cache.isVerified revision query := by
  rw [isVerified, same, isVerified]

theorem isSteady_eq (same : after.view? query = cache.view? query) :
    after.isSteady revision since query = cache.isSteady revision since query := by
  rw [isSteady, same, isSteady]

theorem checkedOf_eq (same : ∀ query, after.view? query = cache.view? query)
    (below : List S.Query) :
    after.checkedOf revision since below = cache.checkedOf revision since below := by
  induction below with
  | nil => rfl
  | cons query rest ih => rw [checkedOf, isSteady_eq (same query), ih, checkedOf]

namespace WellFormed

theorem isVerified_iff (sound : cache.WellFormed) :
    cache.isVerified revision query = true ↔ cache.HasCurrent revision query := by
  simp [sound.hasCurrent_iff, isVerified, Option.any_eq_true]

theorem isSteady_of_memo? (sound : cache.WellFormed) {slot : Nat} {entry : Entry S query}
    (here : cache.memo? slot = some ⟨query, entry⟩) (current : entry.IsCurrent revision) :
    cache.isSteady revision since query = decide (entry.changedAt ≤ since) := by
  have changedAt : (cache.viewOf entry).changedAt = entry.changedAt := rfl
  simp [isSteady, sound.view?_eq here, isCurrent_viewOf, current, changedAt]

end WellFormed

/-- Queries without answers are never found steady. -/
theorem Accounted.not_isSteady {deterministic : rules.Deterministic environment} {now : S.World}
    {input? : (query : S.Query) → Option (S.Value query)}
    (accounted : cache.Accounted (.fromScratch deterministic now input?) revision)
    (inputs : cache.input? = input?)
    (none : ∀ value, ¬ rules.Answers (rules.snapshot now input?) query value) :
    cache.isSteady revision since query = false := by
  refine Bool.eq_false_iff.mpr fun steady => ?_
  obtain ⟨known, here, holds⟩ := (Option.any_eq_true _ _).mp steady
  obtain ⟨-, value, -, answers⟩ := accounted.reads_of_view? inputs here (of_decide_eq_true holds).1
  exact none value answers

/-- A memo that is not verified in the revision is the one of the base, or new. -/
theorem Changes.getD_view? {account : Account rules} {stack : List S.Query} {base : Cache S}
    {first next slot : Nat} (changes : base.Changes account revision stack first cache next)
    (accounted : base.Accounted account revision) {entry : Entry S query}
    (here : cache.memo? slot = some ⟨query, entry⟩) (stale : ¬ entry.IsCurrent revision) :
    (base.view? query).getD (.fresh query revision) = cache.viewOf entry := by
  obtain before | ⟨absent, new⟩ := changes.of_stale accounted here stale
  · rw [accounted.wellFormed.view?_eq before, Option.getD_some]
    refine (viewOf_congr fun dependency read => ?_).symm
    obtain ⟨other, known, there, -⟩ := accounted.dependency before dependency read
    rw [query?_eq there, changes.query? accounted (query?_eq there)]
  · rw [(view?_eq_none_iff accounted.wellFormed).mpr fun ⟨place, there⟩ => absent place there]
    cases new
    rfl

end Cache

/-- Where requests of a revision begin and what they lead to in the end, with queries among which are
all that are verified then. -/
structure Ledger (S : Signature) where
  revision : Revision
  base : Cache S
  last : Cache S
  queries : Finset S.Query

namespace Ledger

def weight (ledger : Ledger S) (rules : Rules S) (query : S.Query) : Nat :=
  if rules.isVolatile query then 0
  else
    let old := (ledger.base.view? query).getD (.fresh query ledger.revision)
    ledger.last.checkedOf ledger.revision old.verifiedAt old.dependencies

def load (ledger : Ledger S) (rules : Rules S) (cache : Cache S) : Nat :=
  ∑ query ∈ ledger.queries with cache.isVerified ledger.revision query, ledger.weight rules query

/-- From one cache to another, each query that gets verified is checked by its weight, and there are
some more checks. -/
def Spends (ledger : Ledger S) (rules : Rules S) (start after : Cache S) (more : Nat) : Prop :=
  after.counts.validations + ledger.load rules start =
    start.counts.validations + ledger.load rules after + more

/-- From one cache to another, something is pending until a query along a path is verified. If
the query fails instead, each query that fails with it was checked by its weight. -/
def Charges (ledger : Ledger S) (rules : Rules S) (snapshot : Snapshot S) (path : List S.Query)
    (query : S.Query) {α : Type} (start after : Cache S) (pending : Nat) : Except QueryError α → Prop
  | .ok _ => ledger.Spends rules start after pending
  | .error error => ∃ failing, rules.FailsThrough snapshot path query error failing ∧
      ledger.Spends rules start after (failing.map (ledger.weight rules)).sum

variable {ledger : Ledger S} {account : Account rules} {start cache after : Cache S}
  {query : S.Query} {slot : Nat}

theorem weight_of_free {old : View S query}
    (known : (ledger.base.view? query).getD (.fresh query ledger.revision) = old)
    (free : old.dependencies = []) : ledger.weight rules query = 0 := by
  simp [weight, known, free, Cache.checkedOf]

theorem weight_eq (steady : rules.isVolatile query = false) {old : View S query}
    (known : (ledger.base.view? query).getD (.fresh query ledger.revision) = old) :
    ledger.weight rules query =
      ledger.last.checkedOf ledger.revision old.verifiedAt old.dependencies := by
  simp [weight, known, steady]

namespace Spends

theorem of_eq (validations : after.counts.validations = start.counts.validations)
    (same : ∀ query, after.isVerified ledger.revision query =
      start.isVerified ledger.revision query) : ledger.Spends rules start after 0 := by
  have load : ledger.load rules after = ledger.load rules start := by simp only [load, same]
  rw [Spends, validations, load, Nat.add_zero]

theorem refl (cache : Cache S) : ledger.Spends rules cache cache 0 :=
  of_eq rfl fun _ => rfl

theorem trans {more more' : Nat} (left : ledger.Spends rules start cache more)
    (right : ledger.Spends rules cache after more') :
    ledger.Spends rules start after (more + more') := by
  unfold Spends at *
  omega

theorem countValidation (cache : Cache S) : ledger.Spends rules cache cache.countValidation 1 := by
  have load : ledger.load rules cache.countValidation = ledger.load rules cache := rfl
  have counted : cache.countValidation.counts.validations = cache.counts.validations + 1 := rfl
  rw [Spends, load, counted]
  omega

theorem insert (accounted : cache.Accounted account ledger.revision)
    (absent : ∀ slot, cache.query? slot ≠ some query) :
    ledger.Spends rules cache (cache.insert query .derived ledger.revision).2 0 := by
  refine of_eq (by rw [Cache.counts_insert]) fun other => ?_
  by_cases same : other = query
  · subst same
    have none : cache.view? other = none :=
      (Cache.view?_eq_none_iff accounted.wellFormed).mpr fun ⟨slot, here⟩ => absent slot here
    simp [Cache.isVerified, accounted.view?_insert_self absent, none, View.IsCurrent, View.fresh]
  · exact Cache.isVerified_eq (accounted.view?_insert_ne absent same)

/-- The checks made for a query are accounted for once its memo is renewed. -/
theorem renew {old new : Entry S query} {shared : Shared (S.Value query)}
    (spends : ledger.Spends rules start cache (ledger.weight rules query))
    (renews : cache.Renews account ledger.revision slot old new shared) (sound : cache.WellFormed)
    (member : query ∈ ledger.queries) {counts : CacheCounts}
    (validations : counts.validations = cache.counts.validations) :
    ledger.Spends rules start { cache.put slot ⟨query, new⟩ with counts } 0 := by
  have stale : cache.isVerified ledger.revision query = false := by
    simp [Cache.isVerified, sound.view?_eq renews.live, Cache.isCurrent_viewOf, renews.stale]
  have verified : (cache.put slot ⟨query, new⟩).isVerified ledger.revision query = true := by
    simp [Cache.isVerified, renews.view?_self sound, Cache.isCurrent_viewOf, Entry.IsCurrent,
      renews.value, renews.verifiedAt]
  have settled : ledger.queries.filter
        ((cache.put slot ⟨query, new⟩).isVerified ledger.revision ·) =
      Insert.insert query (ledger.queries.filter (cache.isVerified ledger.revision ·)) := by
    ext other
    by_cases same : other = query
    · subst same
      simp [verified, member]
    · simp [same, Cache.isVerified_eq (renews.view?_ne sound same)]
  have load : ledger.load rules { cache.put slot ⟨query, new⟩ with counts } =
      ledger.weight rules query + ledger.load rules cache := by
    show ∑ other ∈ ledger.queries.filter
      ((cache.put slot ⟨query, new⟩).isVerified ledger.revision ·), _ = _
    rw [settled, Finset.sum_insert (by simp [stale]), Ledger.load]
  unfold Spends at *
  rw [load, show ({ cache.put slot ⟨query, new⟩ with counts } : Cache S).counts.validations = _ from
    validations]
  omega

end Spends

end Ledger

section Run

variable {deterministic : rules.Deterministic environment} {now : S.World}
  {input? : (query : S.Query) → Option (S.Value query)} {ledger : Ledger S}
  {path stack : List S.Query} {context after : Context S}

structure Ledger.Sound (deterministic : rules.Deterministic environment) (now : S.World)
    (input? : (query : S.Query) → Option (S.Value query)) (ledger : Ledger S) : Prop where
  base : ledger.base.Accounted (.fromScratch deterministic now input?) ledger.revision
  last : ledger.last.Accounted (.fromScratch deterministic now input?) ledger.revision
  inputs : ledger.last.input? = input?
  mem_queries : ∀ query, ledger.last.isVerified ledger.revision query → query ∈ ledger.queries

structure Ledger.Reaches (deterministic : rules.Deterministic environment) (now : S.World)
    (input? : (query : S.Query) → Option (S.Value query)) (ledger : Ledger S)
    (path : List S.Query) (context : Context S) : Prop where
  sound : context.Sound (.fromScratch deterministic now input?) path
  revision : context.revision = ledger.revision
  changes : ∃ first, ledger.base.Changes (.fromScratch deterministic now input?) ledger.revision []
    first context.cache context.nextIdentity

def Ledger.Keeps (ledger : Ledger S) (cache : Cache S) : Prop :=
  cache.Grows True ledger.revision [] ledger.last

theorem Ledger.Reaches.grow {path' : List S.Query}
    (reaches : ledger.Reaches deterministic now input? path context)
    (grows : context.Grows (.fromScratch deterministic now input?) stack after)
    (sound : after.Sound (.fromScratch deterministic now input?) path') :
    ledger.Reaches deterministic now input? path' after := by
  obtain ⟨-, revision, first, changes⟩ := reaches
  have more := grows.changes.within List.nil_suffix
  rw [revision] at more
  exact ⟨sound, grows.revision.trans revision, first, changes.trans more⟩

theorem Ledger.Keeps.of_grows (reaches : ledger.Reaches deterministic now input? path context)
    (grows : context.Grows (.fromScratch deterministic now input?) stack after)
    (keeps : ledger.Keeps after.cache) : ledger.Keeps context.cache := by
  have grows := grows.cache.mono (List.forall_mem_nil _)
  rw [reaches.revision] at grows
  exact grows.trans keeps

/-- Once its memo is renewed, a query is verified in the end. -/
theorem Ledger.Reaches.renew {query : S.Query} {slot : Nat} {origin : Cache S}
    {old new : Entry S query} {shared : Shared (S.Value query)} {counts : CacheCounts}
    (reaches : ledger.Reaches deterministic now input? path context)
    (sound : ledger.Sound deterministic now input?)
    (renews : context.cache.Renews (.fromScratch deterministic now input?) context.revision slot old
      new shared)
    (validations : counts.validations = context.cache.counts.validations)
    (checked : ledger.Keeps context.cache →
      ledger.Spends rules origin context.cache (ledger.weight rules query))
    (keeps : ledger.Keeps { context.cache.put slot ⟨query, new⟩ with counts }) :
    ledger.Spends rules origin { context.cache.put slot ⟨query, new⟩ with counts } 0 := by
  have accounted := reaches.sound.accounted
  rw [reaches.revision] at renews accounted
  have grows := (renews.grows accounted List.not_mem_nil).trans (.recount _ _ _ _ counts)
  have verified := keeps.hasCurrent ⟨slot, new, renews.memo?_self, by simp [renews.value],
    renews.verifiedAt⟩
  have member := sound.mem_queries query (sound.last.wellFormed.isVerified_iff.mpr verified)
  exact (checked (grows.trans keeps)).renew renews accounted.wellFormed member validations

namespace Run

variable {depth slot : Nat} {query other : S.Query} {start : Context S} {origin : Cache S}

def Counts (deterministic : rules.Deterministic environment) (now : S.World)
    (input? : (query : S.Query) → Option (S.Value query)) (ledger : Ledger S) (depth : Nat) :
    Prop :=
  ∀ ⦃path query outcome⦄ ⦃context after : Context S⦄,
    ledger.Reaches deterministic now input? path context →
    rules.Requested (rules.snapshot now input?) path query →
    fetch rules depth query context = some (outcome, after) → ledger.Keeps after.cache →
      ledger.Charges rules (rules.snapshot now input?) path query context.cache after.cache 0
        outcome

theorem cache_recordRead (context : Context S) (slot : Nat) :
    (context.recordRead slot).cache = context.cache := by
  unfold Context.recordRead
  split
  · split <;> rfl
  · rfl

theorem cache_report (context : Context S) (diagnostic : Diagnostic) :
    (context.report diagnostic).cache = context.cache := by
  unfold Context.report
  split <;> rfl

namespace Counts

variable (counts : Counts deterministic now input? ledger depth)

include counts

/-- A computation checks what its reads check. -/
theorem evaluate (requested : rules.Requested (rules.snapshot now input?) path query)
    (free : input? query = none) (fresh : query ∉ path)
    {computation : Computation S (S.Value query)} (propagates : computation.Propagates)
    {outer : List Frame} {reads : List Nat} {readings : List (Reading S)}
    {reports : List Diagnostic} {ending : Except QueryError (S.Value query)}
    (progress : Progress (.fromScratch deterministic now input?) path query slot outer reads
      readings reports context)
    (correct : ∀ reading ∈ readings, rules.Correct (rules.snapshot now input?) reading)
    (reaches : ledger.Reaches deterministic now input? (query :: path) context)
    (remains : Remains (.fromScratch deterministic now input?) depth query start computation context
      readings reports)
    (spends : ledger.Spends rules origin context.cache (ledger.weight rules query))
    (ran : evaluate rules (fetch rules depth) computation context = some (ending, after))
    (keeps : ledger.Keeps after.cache) :
    ledger.Charges rules (rules.snapshot now input?) path query origin after.cache
      (ledger.weight rules query) ending := by
  induction computation generalizing context reads readings reports with
  | pure result =>
    cases ran
    exact spends
  | fail raised =>
    cases ran
    refine ⟨[query], .raised free fresh (remains.ends (.fail raised)) correct, ?_⟩
    simpa using spends
  | read other next ih =>
    have total (request : S.Request) : ∃ reply, rules.RepliesIn now request reply := ⟨_, rfl⟩
    obtain ⟨_, _, _, takes⟩ := (next (.error .stackMismatch)).exists_takes total
    obtain ⟨inner, -⟩ := (Account.fromScratch deterministic now input?).requested_next requested free
      fresh (remains.takes (.read takes)) progress.answers
    rw [Run.evaluate, attempt_bind_apply] at ran
    obtain ⟨⟨outcome, middle⟩, accessed, rest⟩ := Option.bind_eq_some_iff.mp ran
    obtain ⟨grows, _, progress'⟩ :=
      (meets_access (serves_fetch _ depth) progress inner trivial).2 _ _ accessed
    have reaches' := reaches.grow grows progress'.sound
    have inQuery : context.isInQuery = true := by simp [Context.isInQuery, progress.active]
    obtain ⟨noted, shared, there, fetched, rfl, rfl⟩ | ⟨error, failed, rfl⟩ :=
      access_cases inQuery accessed
    · obtain ⟨growing, -⟩ := (meets_evaluate (serves_fetch _ depth) _ progress' requested free fresh
        (fun _ => trivial) (remains.read accessed)).2 _ _ rest
      have keeps' := Ledger.Keeps.of_grows reaches' growing keeps
      rw [cache_recordRead] at keeps'
      have nested : ledger.Spends rules context.cache there.cache 0 :=
        counts reaches inner fetched keeps'
      have answered : rules.Correct (rules.snapshot now input?) ⟨other, .ok shared.value⟩ :=
        ⟨shared.value, rfl, progress'.answers _ (List.mem_append_right _ (List.mem_singleton_self _))
          _ rfl⟩
      refine ih _ (propagates.2 shared.value) progress'
        (List.forall_mem_append.mpr ⟨correct, List.forall_mem_singleton.mpr answered⟩) reaches'
        (remains.read accessed) ?_ rest
      rw [cache_recordRead]
      exact spends.trans nested
    · have stops : next (.error error) = .fail error := propagates.1 error
      have stopped : Run.evaluate rules (fetch rules depth) (next (.error error)) middle =
          some (.error error, middle) := by
        rw [stops]
        rfl
      cases stopped.symm.trans rest
      have ended : (next (.error error)).Takes (rules.RepliesIn now) [] [] (.error error) := by
        rw [stops]
        exact .fail error
      obtain ⟨failing, through, nested⟩ := counts reaches inner failed keeps
      exact ⟨query :: failing, .passed free fresh (remains.takes (.read ended)) correct through,
        spends.trans nested⟩
  | ask request next ih =>
    have served : context.Grows (.fromScratch deterministic now input?) (query :: path)
        { context with world := (rules.serve request context.world).2 } :=
      ⟨.refl _, .refl, rfl, rfl, rfl, rfl⟩
    have asked := progress.serve request
    have replied : rules.RepliesIn now request (rules.serve request context.world).1 :=
      deterministic.reply_eq _ _ _ progress.sound.world
    have reaches' := reaches.grow served asked.sound
    exact ih _ (propagates _) asked correct reaches' (remains.ask replied) spends ran
  | report diagnostic next ih =>
    obtain ⟨reported, grows⟩ := progress.report diagnostic
    refine ih propagates reported correct (reaches.grow grows reported.sound) remains.report ?_ ran
    rw [cache_report]
    exact spends

section

variable (sound : ledger.Sound deterministic now input?)
  (requested : rules.Requested (rules.snapshot now input?) path query) {entry : Entry S query}

include sound requested

/-- The dependencies of a memo are checked up to the first that is not steady, which ends the check
because it changed, or because it fails. -/
theorem areUnchanged (fresh : query ∉ path) {shared : Shared (S.Value query)} {done rest : List Nat}
    {outcome : Except QueryError Bool} {below : List S.Query}
    (checking : Checking (.fromScratch deterministic now input?) path slot entry depth start done
      context)
    (derived : entry.origin = .derived) (value : entry.value = some shared)
    (steady : rules.isVolatile query = false)
    (reaches : ledger.Reaches deterministic now input? (query :: path) context)
    (split : entry.dependencies = done ++ rest)
    (assigned : rest.map context.cache.query? = below.map some) {past : Nat}
    (spends : ledger.Spends rules origin context.cache past)
    (weighs : past + ledger.last.checkedOf ledger.revision entry.verifiedAt below =
      ledger.weight rules query)
    (ran : areUnchanged (fetch rules depth) entry.verifiedAt rest context = some (outcome, after))
    (keeps : ledger.Keeps after.cache) :
    ledger.Charges rules (rules.snapshot now input?) path query origin after.cache
      (ledger.weight rules query) outcome := by
  induction rest generalizing context done below past with
  | nil =>
    cases ran
    obtain rfl := List.map_eq_nil_iff.mp assigned.symm
    rw [← weighs]
    exact spends
  | cons dependency rest ih =>
    obtain ⟨other, below, rfl, named, assigned⟩ := List.map_eq_cons_iff.mp assigned.symm
    have accounted := checking.sound.accounted
    obtain ⟨_, named', inner, -, earlier, _, _, _, takes, answers⟩ :=
      accounted.next_dependency checking.here derived value steady split checking.checked requested
        fresh
    cases named.trans named'
    obtain ⟨known, there⟩ := Cache.memo?_of_query? named.symm
    have goes := ran
    rw [areUnchanged_cons there, bind_apply] at goes
    obtain ⟨⟨result, middle⟩, served, goes⟩ := Option.bind_eq_some_iff.mp goes
    have counting := grows_countValidation context (.fromScratch deterministic now input?)
      (query :: path)
    have reaches' := reaches.grow counting (checking.sound.recount _)
    have fetched := (serves_fetch _ depth _ _ _ reaches'.sound inner trivial).2 _ _ served
    have counted : ledger.Spends rules origin (context.updateCache Cache.countValidation).cache
        (past + 1) := spends.trans (.countValidation context.cache)
    rw [Cache.checkedOf] at weighs
    cases result with
    | error error =>
      cases goes
      obtain ⟨failing, through, nested⟩ := counts reaches' inner served keeps
      rw [sound.last.not_isSteady sound.inputs (through.fails.not_answers inner),
        if_neg Bool.false_ne_true] at weighs
      obtain ⟨reports, cut⟩ := takes.cut (deterministic.propagates query) error
      have correct := Rules.correct_before takes (deterministic.propagates query)
        fun reading member value ended => (answers reading member value ended).1
      have free := accounted.free_of_derived checking.here derived
      refine ⟨query :: failing, .passed free fresh cut correct through, ?_⟩
      rw [List.map_cons, List.sum_cons, ← weighs]
      exact counted.trans nested
    | ok result =>
      obtain ⟨known', here, current, goesOn⟩ := checking.served there served fetched
      have reaches'' := reaches'.grow fetched.grows fetched.sound
      rw [reaches''.revision] at current
      have nested (keeps : ledger.Keeps middle.cache) :
          ledger.Spends rules origin middle.cache (past + 1) ∧
            ledger.last.isSteady ledger.revision entry.verifiedAt other =
              decide (known'.changedAt ≤ entry.verifiedAt) := by
        have kept := keeps.memo?_of_isCurrent here current
        exact ⟨counted.trans (counts reaches' inner served keeps),
          sound.last.wellFormed.isSteady_of_memo? kept current⟩
      rw [areUnchanged_next there served here] at ran
      split at ran
      · rename_i changed
        cases ran
        obtain ⟨spends, isSteady⟩ := nested keeps
        rw [isSteady, decide_eq_false (Nat.not_le.mpr changed), if_neg Bool.false_ne_true] at weighs
        rw [← weighs]
        exact spends
      · rename_i unchanged
        have unchanged := Nat.le_of_not_lt unchanged
        have goesOn := goesOn unchanged
        have split' : entry.dependencies = (done ++ [dependency]) ++ rest := by
          rw [split, List.append_assoc]
          rfl
        have split'' : entry.dependencies = (done ++ [dependency]) ++ rest ++ [] := by
          rw [split', List.append_nil]
        obtain ⟨-, growing, -⟩ := (meets_areUnchanged (serves_fetch _ depth) goesOn derived value
          steady split'' requested fresh fun _ _ _ => trivial).2 _ _ ran
        obtain ⟨spends, isSteady⟩ := nested (.of_grows reaches'' growing keeps)
        rw [isSteady, decide_eq_true unchanged, if_pos rfl] at weighs
        have assigned' := (counting.cache.trans fetched.grows.cache).map_query? assigned.symm
        exact ih goesOn reaches'' split' assigned' spends (by omega) ran

/-- Whether an older memo is up to date is found out by as many checks as the query weighs. -/
theorem isUpToDate (reaches : ledger.Reaches deterministic now input? path context)
    (older : HasOlder context query slot entry) (steady : rules.isVolatile query = false)
    (fresh : context.cycle? rules slot = none) {outcome : Except QueryError Bool}
    (ran : isUpToDate (fetch rules depth) slot entry.verifiedAt context = some (outcome, after))
    (keeps : ledger.Keeps after.cache) :
    ledger.Charges rules (rules.snapshot now input?) path query context.cache after.cache
      (ledger.weight rules query) outcome := by
  have here := Cache.memo?_of_find? older.found
  obtain ⟨shared, value⟩ := Option.isSome_iff_exists.mp older.value
  obtain ⟨below, assigned⟩ := reaches.sound.accounted.exists_below here
  obtain ⟨first, changes⟩ := reaches.changes
  have known := changes.getD_view? sound.base here (reaches.revision ▸ older.stale)
  have dependencies : (context.cache.viewOf entry).dependencies = below :=
    Cache.filterMap_query? assigned
  have weighs := Ledger.weight_eq steady known
  rw [dependencies] at weighs
  rw [isUpToDate_eq here] at ran
  obtain ⟨⟨_, middle⟩, checked, same⟩ := Option.map_eq_some_iff.mp ran
  cases same
  have unrepeated := reaches.sound.not_mem_of_cycle? (Cache.query?_eq here) fresh
  have checking := Checking.initial depth reaches.sound here older.derived older.stale
  have pushed : ledger.Reaches deterministic now input? (query :: path)
      (context.pushFrame slot .validating) := ⟨checking.sound, reaches.revision, reaches.changes⟩
  have charges := counts.areUnchanged sound requested unrepeated checking older.derived value steady
    pushed rfl assigned (.refl context.cache) ((Nat.zero_add _).trans weighs.symm) checked keeps
  exact charges

/-- A query was checked by its weight where it starts to be computed. One that is in flight already
was not. -/
theorem starts (reaches : ledger.Reaches deterministic now input? path context)
    (starts : Starts rules (fetch rules depth) query context slot start)
    (keeps : ledger.Keeps start.cache) :
    ledger.Spends rules context.cache start.cache (ledger.weight rules query) ∧
      (query ∈ path → ledger.weight rules query = 0) := by
  obtain ⟨first, changes⟩ := reaches.changes
  cases starts with
  | new none =>
    have absent := Cache.query?_ne_of_find? none
    have unknown : ledger.base.view? query = Option.none :=
      (Cache.view?_eq_none_iff sound.base.wellFormed).mpr fun ⟨place, there⟩ =>
        absent place (changes.query? sound.base there)
    have known : (ledger.base.view? query).getD (.fresh query ledger.revision) =
        .fresh query ledger.revision := by rw [unknown, Option.getD_none]
    have accounted := reaches.sound.accounted
    rw [reaches.revision] at accounted
    rw [Ledger.weight_of_free known rfl]
    refine ⟨?_, fun _ => rfl⟩
    show ledger.Spends rules _ (context.cache.insert query .derived context.revision).2 0
    rw [reaches.revision]
    exact .insert accounted absent
  | @unset _ entry found none =>
    have here := Cache.memo?_of_find? found
    have stale : ¬ entry.IsCurrent ledger.revision := by simp [Entry.IsCurrent, none]
    have free : (context.cache.viewOf entry).dependencies = [] := by
      simp [Cache.viewOf, reaches.sound.accounted.ofNone here none]
    rw [Ledger.weight_of_free (changes.getD_view? sound.base here stale) free]
    exact ⟨.refl _, fun _ => rfl⟩
  | volatile older volatile =>
    rw [Ledger.weight, if_pos volatile]
    exact ⟨.refl _, fun _ => rfl⟩
  | changed older steady fresh checked =>
    have place := Cache.query?_eq (Cache.memo?_of_find? older.found)
    exact ⟨counts.isUpToDate sound requested reaches older steady fresh checked keeps,
      fun repeated => absurd repeated (reaches.sound.not_mem_of_cycle? place fresh)⟩

/-- A query that is computed checks what its reads check. -/
theorem execute (reaches : ledger.Reaches deterministic now input? path context)
    (starts : Starts rules (fetch rules depth) query context slot start)
    {outcome : Except QueryError (Nat × Shared (S.Value query))}
    (ran : answer rules (fetch rules depth) query context = some (outcome, after))
    (keeps : ledger.Keeps after.cache) :
    ledger.Charges rules (rules.snapshot now input?) path query context.cache after.cache 0
      outcome := by
  rw [starts.answer_eq] at ran
  obtain ⟨sound', grows, entry, here, derived, stale, -⟩ :=
    starts.begins reaches.sound requested trivial
  have reaches' := reaches.grow grows sound'
  have free := sound'.accounted.free_of_derived here derived
  have place := Cache.query?_eq here
  cases cycle : start.cycle? rules slot with
  | some labels =>
    cases (execute_of_cycle cycle).symm.trans ran
    rw [sound'.cycle?_eq place] at cycle
    split at cycle
    · rename_i repeated
      cases cycle
      obtain ⟨spends, none⟩ := counts.starts sound requested reaches starts keeps
      rw [none repeated] at spends
      exact ⟨[], .repeated free repeated, spends⟩
    · cases cycle
  | none =>
    have fresh := sound'.not_mem_of_cycle? place cycle
    have pushed := sound'.push here derived stale .computing
    have begun : Progress (.fromScratch deterministic now input?) path query slot start.active [] []
        [] (start.pushFrame slot .computing) :=
      ⟨pushed, rfl, rfl, by simp, by simp, by simp⟩
    have reaches'' : ledger.Reaches deterministic now input? (query :: path)
        (start.pushFrame slot .computing) := ⟨pushed, reaches'.revision, reaches'.changes⟩
    have computed := ran
    rw [execute_of_fresh cycle] at computed
    obtain ⟨⟨ending, middle⟩, evaluated, -⟩ := Option.bind_eq_some_iff.mp computed
    obtain ⟨growing, reads, readings, reports, progress, takes, proceeds⟩ :=
      (meets_evaluate (serves_fetch _ depth) _ begun requested free fresh (fun _ => trivial)
        .initial).2 _ _ evaluated
    have evaluates (keeps : ledger.Keeps middle.cache) := by
      have keeps' : ledger.Keeps (start.pushFrame slot .computing).cache :=
        .of_grows reaches'' growing keeps
      have checked := counts.starts sound requested reaches starts keeps'
      exact counts.evaluate requested free fresh (deterministic.propagates query) begun
        (List.forall_mem_nil _) reaches'' .initial checked.1 evaluated keeps
    cases ending with
    | error error =>
      cases (execute_of_error cycle evaluated progress.active).symm.trans ran
      exact evaluates keeps
    | ok value =>
      have there : middle.cache.memo? slot = some ⟨query, entry⟩ :=
        (growing.cache.busy slot List.mem_cons_self).trans here
      cases (execute_eq cycle evaluated progress.active there).symm.trans ran
      have renews := progress.renews there derived (growing.revision ▸ stale) free
        ⟨middle.nextIdentity, value⟩ takes
        ⟨depth, context, start, entry, middle, trivial, starts, cycle, here, rfl, proceeds, rfl⟩
      exact (reaches''.grow growing progress.sound).renew sound renews rfl evaluates keeps

/-- An older memo that is not volatile is checked, and verified if it is up to date. -/
theorem older (reaches : ledger.Reaches deterministic now input? path context)
    (older : HasOlder context query slot entry) (steady : rules.isVolatile query = false)
    {outcome : Except QueryError (Nat × Shared (S.Value query))}
    (ran : answer rules (fetch rules depth) query context = some (outcome, after))
    (keeps : ledger.Keeps after.cache) :
    ledger.Charges rules (rules.snapshot now input?) path query context.cache after.cache 0
      outcome := by
  have here := Cache.memo?_of_find? older.found
  cases cycle : context.cycle? rules slot with
  | some labels =>
    cases (older.answer_of_cycle steady cycle).symm.trans ran
    rw [reaches.sound.cycle?_eq (Cache.query?_eq here)] at cycle
    split at cycle
    · rename_i repeated
      cases cycle
      have free := reaches.sound.accounted.free_of_derived here older.derived
      exact ⟨[], .repeated free repeated, .refl _⟩
    · cases cycle
  | none =>
    obtain ⟨shared, value, answers⟩ : ∃ shared, entry.value = some shared ∧
        answer rules (fetch rules depth) query context = _ := older.answer_of_steady steady cycle
    have goes := answers.symm.trans ran
    rw [bind_apply] at goes
    obtain ⟨⟨isUnchanged, middle⟩, checked, goes⟩ := Option.bind_eq_some_iff.mp goes
    have charges := counts.isUpToDate sound requested reaches older steady cycle checked
    match isUnchanged with
    | .error raised =>
      cases goes
      exact charges keeps
    | .ok false =>
      exact counts.execute sound requested reaches (.changed older steady cycle checked) ran keeps
    | .ok true =>
      cases goes
      obtain ⟨sound', grows, here', upToDate, -⟩ :=
        older.checked reaches.sound requested trivial steady cycle checked
      have renews := sound'.accounted.renews_of_checked here' older.derived value steady
        (grows.revision ▸ older.stale) (upToDate rfl)
      have keeps : ledger.Keeps (middle.cache.verify slot context.revision) := keeps
      show ledger.Spends rules context.cache (middle.cache.verify slot context.revision) 0
      rw [← grows.revision, Cache.verify_eq here'] at keeps ⊢
      exact (reaches.grow grows sound').renew sound renews rfl charges keeps

/-- A request for a query whose memo has a value. -/
theorem known (reaches : ledger.Reaches deterministic now input? path context)
    {shared : Shared (S.Value query)} (found : context.cache.find? query = some (slot, entry))
    (value : entry.value = some shared)
    {outcome : Except QueryError (Nat × Shared (S.Value query))}
    (ran : answer rules (fetch rules depth) query context = some (outcome, after))
    (keeps : ledger.Keeps after.cache) :
    ledger.Charges rules (rules.snapshot now input?) path query context.cache after.cache 0
      outcome := by
  by_cases now : entry.verifiedAt = context.revision
  · cases (answer_eq_of_current found value now).symm.trans ran
    exact .of_eq rfl fun _ => rfl
  cases origin : entry.origin with
  | input =>
    cases (answer_eq_of_input found value now origin).symm.trans ran
    have here := Cache.memo?_of_find? found
    have stale : ¬ entry.IsCurrent context.revision := fun current => now current.2
    obtain ⟨first, changes⟩ := reaches.changes
    have known := changes.getD_view? sound.base here (reaches.revision ▸ stale)
    have free : (context.cache.viewOf entry).dependencies = [] := by
      simp [Cache.viewOf, (reaches.sound.accounted.ofInput here origin).2.1]
    have spends : ledger.Spends rules context.cache context.cache (ledger.weight rules query) := by
      rw [Ledger.weight_of_free known free]
      exact .refl _
    have renews := reaches.sound.accounted.renews_of_input here origin value stale
    have keeps : ledger.Keeps (context.cache.verify slot context.revision) := keeps
    show ledger.Spends rules context.cache (context.cache.verify slot context.revision) 0
    rw [Cache.verify_eq here] at keeps ⊢
    exact reaches.renew sound renews rfl (fun _ => spends) keeps
  | derived =>
    have older : HasOlder context query slot entry := ⟨found, by simp [value], now, origin⟩
    cases steady : rules.isVolatile query with
    | false => exact counts.older sound requested reaches older steady ran keeps
    | true => exact counts.execute sound requested reaches (.volatile older steady) ran keeps

end

end Counts

/-- What a request checks: the dependencies of each query that it verifies, and of each one that
fails with it. -/
theorem counts (sound : ledger.Sound deterministic now input?) (depth : Nat) :
    Counts deterministic now input? ledger depth := by
  induction depth with
  | zero => exact fun _ _ _ _ _ _ _ ran => nomatch ran
  | succ depth ih =>
    intro path query outcome context after reaches requested ran keeps
    cases found : context.cache.find? query with
    | none => exact ih.execute sound requested reaches (.new found) ran keeps
    | some result =>
      obtain ⟨slot, entry⟩ := result
      cases value : entry.value with
      | none => exact ih.execute sound requested reaches (.unset found value) ran keeps
      | some shared => exact ih.known sound requested reaches found value ran keeps

end Run

inductive Rules.Abandons (rules : Rules S) (snapshot : Snapshot S) :
    Reading S → List S.Query → Prop
  | answered {query : S.Query} {value : S.Value query} :
      Abandons rules snapshot ⟨query, .ok value⟩ []
  | failed {query : S.Query} {error : QueryError} {failing : List S.Query} :
      rules.FailsThrough snapshot [] query error failing →
        Abandons rules snapshot ⟨query, .error error⟩ failing

theorem Rules.Abandons.unique {snapshot : Snapshot S} {reading : Reading S}
    {failing failing' : List S.Query} (first : rules.Abandons snapshot reading failing)
    (second : rules.Abandons snapshot reading failing')
    (propagates : ∀ query, (rules.compute query).Propagates) : failing = failing' := by
  cases first with
  | answered =>
    cases second
    rfl
  | failed through =>
    cases second with
    | failed through' =>
      exact (through.unique through' (Context.requested_nil _ _) propagates).2

theorem Context.Gets.spends {query : S.Query} (sound : ledger.Sound deterministic now input?)
    (reaches : ledger.Reaches deterministic now input? [] context)
    {outcome : Except QueryError (Shared (S.Value query))}
    (gets : context.Gets rules query outcome after) (keeps : ledger.Keeps after.cache) :
    ∃ failing, rules.Abandons (rules.snapshot now input?) ⟨query, outcome.map (·.value)⟩ failing ∧
      ledger.Spends rules context.cache after.cache (failing.map (ledger.weight rules)).sum := by
  obtain ⟨depth, ran⟩ := gets
  obtain ⟨result, middle, fetched, cache, -, rfl⟩ :=
    Run.exists_fetch_of_request reaches.sound trivial ran
  rw [cache] at keeps ⊢
  have charges := Run.counts sound depth reaches (requested_nil _ query) fetched keeps
  cases result with
  | ok result => exact ⟨[], .answered, charges⟩
  | error error =>
    obtain ⟨failing, through, spends⟩ := charges
    exact ⟨failing, .failed through, spends⟩

end Run

/-- Caches that tell the same of each query tell the same about checks. -/
theorem Ledger.weight_eq_of_view? {ledger ledger' : Ledger S}
    (revision : ledger'.revision = ledger.revision) (base : ledger'.base = ledger.base)
    (same : ∀ query, ledger'.last.view? query = ledger.last.view? query) :
    ledger'.weight rules = ledger.weight rules := by
  funext query
  simp only [weight, revision, base, Cache.checkedOf_eq same]

end IncrementalFrontend
