import IncrementalFrontend.Proofs.Incremental.Revalidation

/-!
What requests do to the memos, one step after the other: a query gets a slot, an old memo is
verified, or a query is computed. Each step tells for which query it is made, and why.
-/
namespace IncrementalFrontend

variable {S : Signature} {rules : Rules S}

def Entry.isBackdated {query : S.Query} (rules : Rules S) (entry : Entry S query)
    (value : S.Value query) : Bool :=
  entry.value.any fun old => rules.isUnchanged query old.value value

def Entry.recomputed {query : S.Query} (rules : Rules S) (entry : Entry S query)
    (revision : Revision) (shared : Shared (S.Value query)) (frame : Frame) : Entry S query :=
  { entry with
    value := some shared
    changedAt := if entry.isBackdated rules shared.value then entry.changedAt else revision
    verifiedAt := revision
    dependencies := frame.reads
    diagnostics := frame.diagnostics
    executions := entry.executions + 1 }

namespace Cache

variable {account : Account rules} {revision : Revision} {cache after : Cache S}
  {path stack : List S.Query} {query : S.Query}

/-- Why a stale memo is computed: it has no value, its query is volatile, or a dependency turned
out to have changed since the memo was verified. -/
inductive Reason (rules : Rules S) (cache : Cache S) (revision : Revision) {query : S.Query}
    (old : Entry S query) : Prop
  | unset : old.value = none → Reason rules cache revision old
  | volatile : rules.isVolatile query = true → Reason rules cache revision old
  | changed {dependency : Nat} {other : S.Query} {known : Entry S other} :
      dependency ∈ old.dependencies → cache.memo? dependency = some ⟨other, known⟩ →
      known.IsCurrent revision → old.verifiedAt < known.changedAt →
        Reason rules cache revision old

theorem Grows.reason {exact : Prop} {busy : List Nat}
    (grows : cache.Grows exact revision busy after) {old : Entry S query}
    (reason : cache.Reason rules revision old) : after.Reason rules revision old := by
  cases reason with
  | unset none => exact .unset none
  | volatile volatile => exact .volatile volatile
  | changed read there current newer =>
    exact .changed read (grows.memo?_of_isCurrent there current) current newer

/-- What requests do to a cache, and to the identity of the next stored value. The queries are
requested along paths that end in the given stack. -/
inductive Changes (account : Account rules) (revision : Revision) (stack : List S.Query)
    (start : Cache S) (first : Nat) : Cache S → Nat → Prop
  | refl : Changes account revision stack start first start first
  | recount {cache : Cache S} {next : Nat} (hits validations : Nat) :
      Changes account revision stack start first cache next →
        Changes account revision stack start first
          { cache with counts := { cache.counts with hits, validations } } next
  | insert {cache : Cache S} {next : Nat} {path : List S.Query} {query : S.Query} :
      Changes account revision stack start first cache next →
        (∀ slot, cache.query? slot ≠ some query) →
        account.requested path query → stack <:+ query :: path →
        Changes account revision stack start first (cache.insert query .derived revision).2 next
  | verify {cache : Cache S} {next slot : Nat} {path : List S.Query} {query : S.Query}
      {entry : Entry S query} {shared : Shared (S.Value query)} :
      Changes account revision stack start first cache next →
        cache.Renews account revision slot entry { entry with verifiedAt := revision } shared →
        (entry.origin = .derived → rules.isVolatile query = false ∧
          cache.Checked revision entry.verifiedAt entry.dependencies) →
        account.requested path query → stack <:+ query :: path →
        Changes account revision stack start first
          (cache.put slot ⟨query, { entry with verifiedAt := revision }⟩) next
  | compute {cache : Cache S} {next slot : Nat} {path : List S.Query} {query : S.Query}
      {entry : Entry S query} {value : S.Value query} {frame : Frame} :
      Changes account revision stack start first cache next →
        cache.Renews account revision slot entry
          (entry.recomputed rules revision ⟨next, value⟩ frame) ⟨next, value⟩ →
        entry.origin = .derived → cache.Reason rules revision entry →
        account.requested path query → stack <:+ query :: path →
        Changes account revision stack start first
          ((cache.put slot ⟨query, entry.recomputed rules revision ⟨next, value⟩ frame⟩).countExecution
            (entry.isBackdated rules value)) (next + 1)

namespace Changes

variable {start middle last : Cache S} {first second third : Nat}

theorem trans (left : start.Changes account revision stack first middle second)
    (right : middle.Changes account revision stack second last third) :
    start.Changes account revision stack first last third := by
  induction right with
  | refl => exact left
  | recount hits validations _ ih => exact .recount hits validations ih
  | insert _ absent requested within ih => exact .insert ih absent requested within
  | verify _ renews checked requested within ih => exact .verify ih renews checked requested within
  | compute _ renews derived reason requested within ih =>
    exact .compute ih renews derived reason requested within

/-- Requests nested in others are made along paths that end in a shorter stack, too. -/
theorem within {outer : List S.Query} (suffix : outer <:+ stack)
    (changes : start.Changes account revision stack first last third) :
    start.Changes account revision outer first last third := by
  induction changes with
  | refl => exact .refl
  | recount hits validations _ ih => exact .recount hits validations ih
  | insert _ absent requested within ih => exact .insert ih absent requested (suffix.trans within)
  | verify _ renews checked requested within ih =>
    exact .verify ih renews checked requested (suffix.trans within)
  | compute _ renews derived reason requested within ih =>
    exact .compute ih renews derived reason requested (suffix.trans within)

theorem accounted (changes : start.Changes account revision stack first last third)
    (accounted : start.Accounted account revision) : last.Accounted account revision := by
  induction changes with
  | refl => exact accounted
  | recount hits validations _ ih => exact ih.recount _
  | insert _ absent _ _ ih => exact ih.insert absent
  | verify _ renews _ _ _ ih => exact renews.accounted ih
  | compute _ renews _ _ _ _ ih => exact (renews.accounted ih).recount _

end Changes

inductive Breaks (account : Account rules) (revision : Revision) (cache : Cache S) :
    List S.Query → S.Query → QueryError → Prop
  | repeated {path : List S.Query} {query : S.Query} :
      account.free query → query ∈ path →
        Breaks account revision cache path query (.cycle (rules.cycleLabels path query))
  | computed {path : List S.Query} {query : S.Query} {readings : List (Reading S)}
      {reports : List Diagnostic} {error : QueryError} :
      account.free query → query ∉ path → cache.Knows query →
        (rules.compute query).Takes account.replies readings reports (.error error) →
        (∀ reading ∈ readings, ∀ value, reading.outcome = .ok value →
          account.answer reading.query value ∧ cache.HasCurrent revision reading.query) →
        (∀ reading ∈ readings, ∀ error, reading.outcome = .error error →
          Breaks account revision cache (query :: path) reading.query error) →
        Breaks account revision cache path query error
  | checked {path : List S.Query} {query other : S.Query} {before after : List (Reading S)}
      {outcome : Except QueryError (S.Value other)} {reports : List Diagnostic}
      {value : S.Value query} {error : QueryError} :
      account.free query → query ∉ path → cache.Knows query →
        (rules.compute query).Takes account.replies (before ++ ⟨other, outcome⟩ :: after) reports
          (.ok value) →
        (∀ reading ∈ before, ∀ value, reading.outcome = .ok value →
          account.answer reading.query value ∧ cache.HasCurrent revision reading.query) →
        Breaks account revision cache (query :: path) other error →
        Breaks account revision cache path query error

namespace Breaks

variable {error : QueryError}

/-- A request fails as the account says. -/
theorem failure (breaks : cache.Breaks account revision path query error) :
    account.failure path query error := by
  induction breaks with
  | repeated free member => exact account.failure_repeated free member
  | computed free fresh _ takes answers _ ih =>
    exact account.failure_computed free fresh takes
      (fun reading member value ended => (answers reading member value ended).1) ih
  | checked free fresh _ takes answers _ ih =>
    exact account.failure_read free fresh takes
      (fun reading member value ended => (answers reading member value ended).1) ih

theorem grow {exact : Prop} {busy : List Nat} (grows : cache.Grows exact revision busy after)
    (breaks : cache.Breaks account revision path query error) :
    after.Breaks account revision path query error := by
  induction breaks with
  | repeated free member => exact .repeated free member
  | computed free fresh known takes answers _ ih =>
    exact .computed free fresh (grows.knows known) takes
      (fun reading member value ended =>
        (answers reading member value ended).imp_right grows.hasCurrent) ih
  | checked free fresh known takes answers _ ih =>
    exact .checked free fresh (grows.knows known) takes
      (fun reading member value ended =>
        (answers reading member value ended).imp_right grows.hasCurrent) ih

end Breaks

end Cache

end IncrementalFrontend
