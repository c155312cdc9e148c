import IncrementalFrontend.Proofs.Incremental.Replay

/-!
What a cache tells of a query, wherever its slot is. What becomes of a memo in a revision is told
by the memos before and the answers of the revision, so the order of the requests does not show.
-/
namespace IncrementalFrontend

variable {S : Signature} {rules : Rules S} {E : Type} {environment : S.World → E}

/-- An entry with the queries that were read in place of their slots, and the value alone. -/
structure View (S : Signature) (query : S.Query) where
  value : Option (S.Value query)
  origin : Origin
  changedAt : Revision
  verifiedAt : Revision
  dependencies : List S.Query
  diagnostics : List Diagnostic
  executions : Nat

namespace View

variable {query : S.Query}

def IsCurrent (view : View S query) (revision : Revision) : Prop :=
  view.value.isSome ∧ view.verifiedAt = revision

def fresh (query : S.Query) (revision : Revision) : View S query :=
  ⟨none, .derived, revision, revision, [], [], 0⟩

def recomputed (rules : Rules S) (old : View S query) (revision : Revision)
    (value : S.Value query) (below : List S.Query) (own : List Diagnostic) : View S query where
  value := some value
  origin := old.origin
  changedAt :=
    if old.value.any (rules.isUnchanged query · value) then old.changedAt else revision
  verifiedAt := revision
  dependencies := below
  diagnostics := own
  executions := old.executions + 1

def summary (rules : Rules S) (view : View S query) : Context.Summary where
  origin := view.origin
  changedAt := view.changedAt
  verifiedAt := view.verifiedAt
  executions := view.executions
  dependencies := view.dependencies.map rules.label
  diagnostics := view.diagnostics

end View

namespace Cache

variable {account : Account rules} {revision : Revision} {cache after : Cache S} {slot : Nat}
  {query : S.Query} {entry : Entry S query}

def viewOf (cache : Cache S) (entry : Entry S query) : View S query where
  value := entry.value.map (·.value)
  origin := entry.origin
  changedAt := entry.changedAt
  verifiedAt := entry.verifiedAt
  dependencies := entry.dependencies.filterMap cache.query?
  diagnostics := entry.diagnostics
  executions := entry.executions

def view? (cache : Cache S) (query : S.Query) : Option (View S query) :=
  (cache.find? query).map fun (_, entry) => cache.viewOf entry

theorem isCurrent_viewOf : (cache.viewOf entry).IsCurrent revision ↔ entry.IsCurrent revision := by
  simp [View.IsCurrent, Entry.IsCurrent, viewOf]

theorem filterMap_query? {slots : List Nat} {queries : List S.Query}
    (assigned : slots.map cache.query? = queries.map some) :
    slots.filterMap cache.query? = queries := by
  have same := congrArg (List.filterMap id) assigned
  simpa [List.filterMap_map] using same

theorem viewOf_congr
    (same : ∀ dependency ∈ entry.dependencies, after.query? dependency = cache.query? dependency) :
    after.viewOf entry = cache.viewOf entry := by
  simp only [viewOf, List.filterMap_congr same]

theorem viewOf_recomputed (shared : Shared (S.Value query)) (frame : Frame) :
    cache.viewOf (entry.recomputed rules revision shared frame) =
      (cache.viewOf entry).recomputed rules revision shared.value
        (frame.reads.filterMap cache.query?) frame.diagnostics := by
  unfold View.recomputed Entry.recomputed Entry.isBackdated viewOf
  cases entry.value <;> rfl

theorem exists_of_view? {view : View S query} (known : cache.view? query = some view) :
    ∃ slot entry, cache.memo? slot = some ⟨query, entry⟩ ∧ cache.viewOf entry = view := by
  obtain ⟨⟨slot, entry⟩, found, same⟩ := Option.map_eq_some_iff.mp known
  exact ⟨slot, entry, memo?_of_find? found, same⟩

theorem view?_eq_none_iff (sound : cache.WellFormed) :
    cache.view? query = none ↔ ¬ cache.Knows query := by
  constructor
  · rintro none ⟨slot, here⟩
    obtain ⟨entry, here⟩ := memo?_of_query? here
    simp [view?, sound.find?_eq here] at none
  · intro unknown
    cases known : cache.view? query with
    | none => rfl
    | some view =>
      obtain ⟨slot, entry, here, -⟩ := exists_of_view? known
      exact absurd ⟨slot, query?_eq here⟩ unknown

namespace WellFormed

theorem view?_eq (sound : cache.WellFormed) (here : cache.memo? slot = some ⟨query, entry⟩) :
    cache.view? query = some (cache.viewOf entry) := by
  simp [view?, sound.find?_eq here]

theorem hasCurrent_iff (sound : cache.WellFormed) :
    cache.HasCurrent revision query ↔
      ∃ view, cache.view? query = some view ∧ view.IsCurrent revision := by
  constructor
  · rintro ⟨slot, entry, here, current⟩
    exact ⟨_, sound.view?_eq here, isCurrent_viewOf.mpr current⟩
  · rintro ⟨view, known, current⟩
    obtain ⟨slot, entry, here, rfl⟩ := exists_of_view? known
    exact ⟨slot, entry, here, isCurrent_viewOf.mp current⟩

/-- Two caches tell the same of a query whose memo and dependencies they share. -/
theorem view?_congr (sound : cache.WellFormed) (sound' : after.WellFormed)
    (known : ∀ slot, after.query? slot = some query ↔ cache.query? slot = some query)
    (memo : ∀ slot entry, cache.memo? slot = some ⟨query, entry⟩ →
      after.memo? slot = some ⟨query, entry⟩ ∧
        ∀ dependency ∈ entry.dependencies, after.query? dependency = cache.query? dependency) :
    after.view? query = cache.view? query := by
  by_cases live : cache.Knows query
  · obtain ⟨slot, here⟩ := live
    obtain ⟨entry, here⟩ := memo?_of_query? here
    obtain ⟨there, same⟩ := memo slot entry here
    rw [sound.view?_eq here, sound'.view?_eq there, viewOf_congr same]
  · rw [(view?_eq_none_iff sound).mpr live, (view?_eq_none_iff sound').mpr]
    rintro ⟨slot, here⟩
    exact live ⟨slot, (known slot).mp here⟩

end WellFormed

namespace Renews

variable {old new : Entry S query} {shared : Shared (S.Value query)}

theorem view?_self (renews : cache.Renews account revision slot old new shared)
    (sound : cache.WellFormed) :
    (cache.put slot ⟨query, new⟩).view? query = some (cache.viewOf new) := by
  rw [(renews.wellFormed sound).view?_eq renews.memo?_self,
    viewOf_congr fun dependency _ => congrFun renews.query? dependency]

theorem view?_ne (renews : cache.Renews account revision slot old new shared)
    (sound : cache.WellFormed) {other : S.Query} (differ : other ≠ query) :
    (cache.put slot ⟨query, new⟩).view? other = cache.view? other := by
  refine sound.view?_congr (renews.wellFormed sound) (fun place => by rw [renews.query?]) ?_
  intro place entry here
  have apart : place ≠ slot := by
    rintro rfl
    have same := here.symm.trans renews.live
    cases same
    exact differ rfl
  exact ⟨(renews.memo?_ne apart).trans here, fun dependency _ => congrFun renews.query? dependency⟩

end Renews

namespace Accounted

theorem summary?_eq {context : Context S}
    (accounted : context.cache.Accounted account context.revision) (query : S.Query) :
    context.summary? rules query = (context.cache.view? query).map (View.summary rules) := by
  unfold Context.summary? view?
  cases found : context.cache.find? query with
  | none => rfl
  | some result =>
    obtain ⟨slot, entry⟩ := result
    obtain ⟨below, assigned⟩ := accounted.exists_below (memo?_of_find? found)
    simp only [Option.map_some, View.summary, viewOf, filterMap_query? assigned,
      Context.map_label assigned]

theorem view?_insert_self (accounted : cache.Accounted account revision)
    (absent : ∀ slot, cache.query? slot ≠ some query) :
    (cache.insert query .derived revision).2.view? query = some (.fresh query revision) := by
  have here := accounted.wellFormed.memo?_insert_self query .derived revision
  rw [(accounted.wellFormed.insert absent _ _).view?_eq here]
  rfl

theorem view?_insert_ne (accounted : cache.Accounted account revision)
    (absent : ∀ slot, cache.query? slot ≠ some query) {other : S.Query} (differ : other ≠ query) :
    (cache.insert query .derived revision).2.view? other = cache.view? other := by
  have empty := accounted.wellFormed.insert_slot query .derived revision
  have same {place : Nat} (live : (cache.query? place).isSome) :
      (cache.insert query .derived revision).2.memo? place = cache.memo? place := by
    refine accounted.wellFormed.memo?_insert_of_ne ?_
    rintro rfl
    simp [query?, empty] at live
  refine accounted.wellFormed.view?_congr (accounted.wellFormed.insert absent _ _) ?_ ?_
  · intro place
    by_cases new : place = (cache.insert query .derived revision).1
    · subst new
      simp [query?, accounted.wellFormed.memo?_insert, empty, newMemo, Ne.symm differ]
    · simp only [query?, accounted.wellFormed.memo?_insert, if_neg new]
  · intro place entry here
    refine ⟨(same (by simp [query?, here])).trans here, fun dependency read => ?_⟩
    obtain ⟨third, known, there, -⟩ := accounted.dependency here dependency read
    simp only [query?, same (show (cache.query? dependency).isSome by simp [query?, there])]

end Accounted

end Cache

end IncrementalFrontend
