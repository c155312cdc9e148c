import IncrementalFrontend.Proofs.Incremental.Views

/-!
What becomes of each query in a revision. It keeps what was known, gets a slot, is verified, or is
computed; which of these is told by the memos before and by the answers of the revision.
-/
namespace IncrementalFrontend

variable {S : Signature} {rules : Rules S} {E : Type} {environment : S.World → E}

namespace Cache

def Found (last : Cache S) (revision : Revision) (changed : Revision → Prop) (query : S.Query) :
    Prop :=
  ∃ known, last.view? query = some known ∧ known.IsCurrent revision ∧ changed known.changedAt

/-- What became of a query between a base and a later cache of the same revision. -/
inductive Fate (rules : Rules S) (revision : Revision) (base last : Cache S) (query : S.Query) :
    Prop
  | kept : last.view? query = base.view? query → Fate rules revision base last query
  | fresh : base.view? query = none → last.view? query = some (.fresh query revision) →
      Fate rules revision base last query
  | verified {old : View S query} : base.view? query = some old → ¬ old.IsCurrent revision →
      old.value.isSome →
      (old.origin = .derived → rules.isVolatile query = false ∧
        ∀ other ∈ old.dependencies, last.Found revision (· ≤ old.verifiedAt) other) →
      last.view? query = some { old with verifiedAt := revision } →
      Fate rules revision base last query
  | computed {old : View S query} {value : S.Value query} {below : List S.Query}
      {own : List Diagnostic} : (base.view? query).getD (.fresh query revision) = old →
      ¬ old.IsCurrent revision → old.origin = .derived →
      (old.value.isSome → rules.isVolatile query = true ∨
        ∃ other ∈ old.dependencies, last.Found revision (old.verifiedAt < ·) other) →
      last.view? query = some (old.recomputed rules revision value below own) →
      Fate rules revision base last query

def Keeps (revision : Revision) (cache after : Cache S) : Prop :=
  ∀ query known, cache.view? query = some known → known.IsCurrent revision →
    after.view? query = some known

variable {revision : Revision} {base cache last first second : Cache S} {query : S.Query}

theorem WellFormed.found (sound : cache.WellFormed) {slot : Nat} {entry : Entry S query}
    (here : cache.memo? slot = some ⟨query, entry⟩) (current : entry.IsCurrent revision)
    {changed : Revision → Prop} (holds : changed entry.changedAt) :
    cache.Found revision changed query :=
  ⟨_, sound.view?_eq here, isCurrent_viewOf.mpr current, holds⟩

theorem Keeps.found (keeps : cache.Keeps revision last) {changed : Revision → Prop}
    (found : cache.Found revision changed query) : last.Found revision changed query := by
  obtain ⟨known, here, current, changed⟩ := found
  exact ⟨known, keeps query known here current, current, changed⟩

namespace Fate

theorem keep (fate : base.Fate rules revision cache query) (keeps : cache.Keeps revision last)
    (same : last.view? query = cache.view? query) : base.Fate rules revision last query := by
  cases fate with
  | kept kept => exact .kept (same.trans kept)
  | fresh none fresh => exact .fresh none (same.trans fresh)
  | verified known stale value checked result =>
    refine .verified known stale value (fun derived => ?_) (same.trans result)
    exact (checked derived).imp_right fun all other read => keeps.found (all other read)
  | computed known stale derived reason result =>
    refine .computed known stale derived (fun value => ?_) (same.trans result)
    exact (reason value).imp_right fun ⟨other, read, found⟩ => ⟨other, read, keeps.found found⟩

/-- A query that is not verified in the revision is known as before, or just got a slot. -/
theorem of_stale (fate : base.Fate rules revision cache query) {view : View S query}
    (known : cache.view? query = some view) (stale : ¬ view.IsCurrent revision) :
    (base.view? query).getD (.fresh query revision) = view := by
  cases fate with
  | kept kept => rw [← kept, known]; rfl
  | fresh none fresh =>
    rw [fresh] at known
    cases known
    rw [none]
    rfl
  | verified _ _ value _ result =>
    rw [result] at known
    cases known
    exact absurd ⟨value, rfl⟩ stale
  | computed _ _ _ _ result =>
    rw [result] at known
    cases known
    exact absurd ⟨rfl, rfl⟩ stale

/-- A query that is verified in the revision was so before, or it was verified or computed. -/
theorem of_current (fate : base.Fate rules revision cache query) {view old : View S query}
    (known : cache.view? query = some view) (current : view.IsCurrent revision)
    (before : (base.view? query).getD (.fresh query revision) = old) :
    view = old ∨ ¬ old.IsCurrent revision ∧
      (old.value.isSome ∧ (old.origin = .derived → rules.isVolatile query = false ∧
          ∀ other ∈ old.dependencies, cache.Found revision (· ≤ old.verifiedAt) other) ∧
        view = { old with verifiedAt := revision } ∨
      old.origin = .derived ∧ (old.value.isSome → rules.isVolatile query = true ∨
          ∃ other ∈ old.dependencies, cache.Found revision (old.verifiedAt < ·) other) ∧
        ∃ value below own, view = old.recomputed rules revision value below own) := by
  cases fate with
  | kept kept =>
    rw [← kept, known] at before
    exact .inl before
  | fresh _ fresh =>
    cases known.symm.trans fresh
    simp [View.IsCurrent, View.fresh] at current
  | verified there stale value checked result =>
    rw [there] at before
    cases before
    exact .inr ⟨stale, .inl ⟨value, checked, Option.some.inj (known.symm.trans result)⟩⟩
  | computed there stale derived reason result =>
    cases there.symm.trans before
    exact .inr ⟨stale, .inr ⟨derived, reason, _, _, _, Option.some.inj (known.symm.trans result)⟩⟩

end Fate

end Cache

/-- What is known of a query verified in the revision is what it reads and answers. -/
theorem Cache.Accounted.reads_of_view? {deterministic : rules.Deterministic environment}
    {now : S.World} {input? : (query : S.Query) → Option (S.Value query)} {revision : Revision}
    {cache : Cache S}
    (accounted : cache.Accounted (.fromScratch deterministic now input?) revision)
    (inputs : cache.input? = input?) {query : S.Query} {view : View S query}
    (known : cache.view? query = some view) (current : view.IsCurrent revision) :
    rules.Reads (rules.snapshot now input?) query view.dependencies view.diagnostics ∧
      ∃ value, view.value = some value ∧ rules.Answers (rules.snapshot now input?) query value := by
  obtain ⟨slot, entry, here, rfl⟩ := exists_of_view? known
  have current := isCurrent_viewOf.mp current
  obtain ⟨query', entry', below, there, reads, assigned, -⟩ :=
    accounted.describes inputs slot ⟨query, entry, here, current⟩
  rw [here] at there
  cases there
  obtain ⟨shared, value⟩ := Option.isSome_iff_exists.mp current.1
  refine ⟨?_, shared.value, by simp [viewOf, value], accounted.current here value current.2⟩
  rw [viewOf, filterMap_query? assigned]
  exact reads

section Unique

variable {deterministic : rules.Deterministic environment} {now : S.World}
  {input? : (query : S.Query) → Option (S.Value query)} {revision : Revision}
  {base first second : Cache S}

/-- A memo is not computed in one course of the revision and verified in another one. -/
theorem Cache.not_verified_of_computed
    (accounted : first.Accounted (.fromScratch deterministic now input?) revision)
    (inputs : first.input? = input?) {query : S.Query} {old : View S query}
    (value : old.value.isSome) (steady : rules.isVolatile query = false)
    (checked : ∀ other ∈ old.dependencies, first.Found revision (· ≤ old.verifiedAt) other)
    (result : first.view? query = some { old with verifiedAt := revision })
    (below : ∀ other, rules.Requests (rules.snapshot now input?) query other →
      ∀ one two, first.view? other = some one → one.IsCurrent revision →
        second.view? other = some two → two.IsCurrent revision → one = two)
    (reason : old.value.isSome → rules.isVolatile query = true ∨
      ∃ other ∈ old.dependencies, second.Found revision (old.verifiedAt < ·) other) : False := by
  obtain volatile | ⟨other, read, two, there, current', newer⟩ := reason value
  · rw [steady] at volatile
    cases volatile
  · obtain ⟨one, here, current, older⟩ := checked other read
    obtain ⟨reads, -⟩ := accounted.reads_of_view? inputs result ⟨value, rfl⟩
    have requests := (reads.requests_iff other).mpr read
    obtain rfl := below other requests one two here current there current'
    exact Nat.not_lt.mpr older newer

/-- Computations of a query in the revision leave the same. -/
theorem Cache.recomputed_unique
    (accounted : first.Accounted (.fromScratch deterministic now input?) revision)
    (accounted' : second.Accounted (.fromScratch deterministic now input?) revision)
    (inputs : first.input? = input?) (inputs' : second.input? = input?) {query : S.Query}
    {old : View S query} {value value' : S.Value query} {below below' : List S.Query}
    {own own' : List Diagnostic}
    (known : first.view? query = some (old.recomputed rules revision value below own))
    (known' : second.view? query = some (old.recomputed rules revision value' below' own')) :
    old.recomputed rules revision value below own =
      old.recomputed rules revision value' below' own' := by
  obtain ⟨reads, _, stored, answers⟩ := accounted.reads_of_view? inputs known ⟨rfl, rfl⟩
  obtain ⟨reads', _, stored', answers'⟩ := accounted'.reads_of_view? inputs' known' ⟨rfl, rfl⟩
  cases stored
  cases stored'
  obtain rfl := answers.unique answers'
  obtain ⟨dependencies, diagnostics⟩ := reads.unique reads'
  simp only [View.recomputed] at dependencies diagnostics ⊢
  rw [dependencies, diagnostics]

/-- What is known of a query verified in the revision is told by the memos before. -/
theorem Cache.Fate.unique
    (accounted : first.Accounted (.fromScratch deterministic now input?) revision)
    (accounted' : second.Accounted (.fromScratch deterministic now input?) revision)
    (inputs : first.input? = input?) (inputs' : second.input? = input?)
    (fate : ∀ query, base.Fate rules revision first query)
    (fate' : ∀ query, base.Fate rules revision second query) {query : S.Query}
    {one two : View S query} (known : first.view? query = some one)
    (current : one.IsCurrent revision) (known' : second.view? query = some two)
    (current' : two.IsCurrent revision) : one = two := by
  obtain ⟨-, answer, -, answers⟩ := accounted.reads_of_view? inputs known current
  have acc := answers.acc
  clear answers answer
  -- Dependencies are told by the memos before, so whether they changed is, too.
  induction acc with
  | intro query _ ih =>
    have below : ∀ other, rules.Requests (rules.snapshot now input?) query other →
        ∀ one two, first.view? other = some one → one.IsCurrent revision →
          second.view? other = some two → two.IsCurrent revision → one = two :=
      fun other requests one two here now there now' => ih other requests here now there now'
    obtain rfl | ⟨stale, step⟩ := (fate query).of_current known current rfl
    · obtain rfl | ⟨stale, -⟩ := (fate' query).of_current known' current' rfl
      · rfl
      · exact absurd current stale
    obtain rfl | ⟨-, step'⟩ := (fate' query).of_current known' current' rfl
    · exact absurd current' stale
    obtain ⟨value, checked, rfl⟩ | ⟨derived, reason, _, _, _, rfl⟩ := step
    · obtain ⟨-, -, rfl⟩ | ⟨derived, reason, _, _, _, rfl⟩ := step'
      · rfl
      · obtain ⟨steady, checked⟩ := checked derived
        exact (not_verified_of_computed accounted inputs value steady checked known below
          reason).elim
    · obtain ⟨value, checked, rfl⟩ | ⟨-, -, _, _, _, rfl⟩ := step'
      · obtain ⟨steady, checked⟩ := checked derived
        refine (not_verified_of_computed accounted' inputs' value steady checked known' ?_
          reason).elim
        exact fun other requests one two here now there now' =>
          (below other requests two one there now' here now).symm
      · exact recomputed_unique accounted accounted' inputs inputs' known known'

end Unique

namespace Cache

variable {revision : Revision} {base cache after last : Cache S} {first next : Nat}
  {inserted computed : List S.Query} {query : S.Query}

def executionsOf (cache : Cache S) (query : S.Query) : Nat :=
  ((cache.view? query).map (·.executions)).getD 0

def isOlder (cache : Cache S) (revision : Revision) (query : S.Query) : Bool :=
  (cache.view? query).any (·.changedAt ≠ revision)

/-- The counts of a cache against those of a base: which queries got a slot, and which were
computed. -/
structure Tally (revision : Revision) (base last : Cache S) (first next : Nat)
    (inserted computed : List S.Query) : Prop where
  nodup_inserted : inserted.Nodup
  mem_inserted : ∀ query, query ∈ inserted ↔ base.view? query = none ∧ (last.view? query).isSome
  nodup_computed : computed.Nodup
  mem_computed : ∀ query,
    query ∈ computed ↔ last.executionsOf query ≠ base.executionsOf query
  size : last.size = base.size + inserted.length
  executions : last.counts.executions = base.counts.executions + computed.length
  backdates : last.counts.backdates =
    base.counts.backdates + computed.countP (last.isOlder revision)
  evictions : last.counts.evictions = base.counts.evictions
  identity : next = first + computed.length

structure Evolves (rules : Rules S) (revision : Revision) (reached : S.Query → Prop)
    (base : Cache S) (first : Nat) (last : Cache S) (next : Nat) : Prop where
  fate : ∀ query, base.Fate rules revision last query
  idle : ∀ query, last.view? query = base.view? query ∨ reached query
  tally : ∃ inserted computed, base.Tally revision last first next inserted computed

theorem Tally.refl (revision : Revision) (cache : Cache S) (first : Nat) :
    cache.Tally revision cache first first [] [] where
  nodup_inserted := List.nodup_nil
  mem_inserted query := by cases cache.view? query <;> simp
  nodup_computed := List.nodup_nil
  mem_computed := by simp
  size := rfl
  executions := rfl
  backdates := rfl
  evictions := rfl
  identity := rfl

theorem Evolves.refl (rules : Rules S) (revision : Revision) (reached : S.Query → Prop)
    (cache : Cache S) (first : Nat) : cache.Evolves rules revision reached first cache first :=
  ⟨fun _ => .kept rfl, fun _ => .inl rfl, [], [], .refl revision cache first⟩

theorem Renews.stale_view {account : Account rules} {slot : Nat} {old new : Entry S query}
    {shared : Shared (S.Value query)}
    (renews : cache.Renews account revision slot old new shared) (sound : cache.WellFormed)
    (view : View S query) (known : cache.view? query = some view) : ¬ view.IsCurrent revision := by
  rw [sound.view?_eq renews.live] at known
  cases known
  exact mt isCurrent_viewOf.mp renews.stale

theorem Keeps.of_ne (others : ∀ other, other ≠ query → after.view? other = cache.view? other)
    (stale : ∀ view, cache.view? query = some view → ¬ view.IsCurrent revision) :
    cache.Keeps revision after := by
  intro other known here current
  by_cases same : other = query
  · subst same
    exact absurd current (stale known here)
  · exact (others other same).trans here

namespace Evolves

variable {reached : S.Query → Prop}

/-- One query changes, which was not verified in the revision. -/
theorem change (evolves : base.Evolves rules revision reached first cache next)
    (others : ∀ other, other ≠ query → after.view? other = cache.view? other)
    (stale : ∀ view, cache.view? query = some view → ¬ view.IsCurrent revision)
    (fate : base.Fate rules revision after query) (isReached : reached query) {next' : Nat}
    {inserted computed : List S.Query}
    (tally : base.Tally revision after first next' inserted computed) :
    base.Evolves rules revision reached first after next' where
  fate other := by
    by_cases same : other = query
    · exact same ▸ fate
    · exact (evolves.fate other).keep (.of_ne others stale) (others other same)
  idle other := by
    by_cases same : other = query
    · exact .inr (same ▸ isReached)
    · rw [others other same]
      exact evolves.idle other
  tally := ⟨inserted, computed, tally⟩

end Evolves

namespace Tally

theorem recount (tally : base.Tally revision cache first next inserted computed)
    (hits validations : Nat) :
    base.Tally revision { cache with counts := { cache.counts with hits, validations } } first next
      inserted computed :=
  { tally with }

theorem executionsOf_eq (others : ∀ other, other ≠ query → after.view? other = cache.view? other)
    (here : after.executionsOf query = cache.executionsOf query) (other : S.Query) :
    after.executionsOf other = cache.executionsOf other := by
  by_cases same : other = query
  · subst same
    exact here
  · rw [executionsOf, others other same, executionsOf]

theorem isOlder_eq (others : ∀ other, other ≠ query → after.view? other = cache.view? other)
    (here : after.isOlder revision query = cache.isOlder revision query) :
    after.isOlder revision = cache.isOlder revision := by
  funext other
  by_cases same : other = query
  · subst same
    exact here
  · rw [isOlder, others other same, isOlder]

/-- A query that got no slot and was not computed leaves the counts. -/
theorem keep (tally : base.Tally revision cache first next inserted computed)
    (others : ∀ other, other ≠ query → after.view? other = cache.view? other)
    {old new : View S query} (before : cache.view? query = some old)
    (result : after.view? query = some new) (executions : new.executions = old.executions)
    (changedAt : new.changedAt = old.changedAt) (size : after.size = cache.size)
    (counts : after.counts = cache.counts) :
    base.Tally revision after first next inserted computed := by
  have isSome (other : S.Query) : (after.view? other).isSome = (cache.view? other).isSome := by
    by_cases same : other = query
    · subst same
      rw [before, result]
      rfl
    · rw [others other same]
  have executionsOf := executionsOf_eq others (by simp [executionsOf, before, result, executions])
  have isOlder : after.isOlder revision = cache.isOlder revision :=
    isOlder_eq others (by simp [isOlder, before, result, changedAt])
  exact
    { nodup_inserted := tally.nodup_inserted
      mem_inserted := fun other => by rw [isSome, tally.mem_inserted]
      nodup_computed := tally.nodup_computed
      mem_computed := fun other => by rw [executionsOf, tally.mem_computed]
      size := size.trans tally.size
      executions := by rw [counts, tally.executions]
      backdates := by rw [counts, tally.backdates, isOlder]
      evictions := by rw [counts, tally.evictions]
      identity := tally.identity }

theorem insert (tally : base.Tally revision cache first next inserted computed)
    (others : ∀ other, other ≠ query → after.view? other = cache.view? other)
    (absent : cache.view? query = none) (unknown : base.view? query = none)
    (result : after.view? query = some (.fresh query revision)) (size : after.size = cache.size + 1)
    (counts : after.counts = cache.counts) :
    base.Tally revision after first next (query :: inserted) computed := by
  have executionsOf := executionsOf_eq others (by simp [executionsOf, absent, result, View.fresh])
  have isOlder : after.isOlder revision = cache.isOlder revision :=
    isOlder_eq others (by simp [isOlder, absent, result, View.fresh])
  exact
    { nodup_inserted := by
        refine List.nodup_cons.mpr ⟨fun member => ?_, tally.nodup_inserted⟩
        simpa [absent] using ((tally.mem_inserted query).mp member).2
      mem_inserted := fun other => by
        by_cases same : other = query
        · subst same
          simp [unknown, result]
        · rw [List.mem_cons, others other same, ← tally.mem_inserted]
          simp [same]
      nodup_computed := tally.nodup_computed
      mem_computed := fun other => by rw [executionsOf, tally.mem_computed]
      size := by rw [size, tally.size, List.length_cons, Nat.add_assoc]
      executions := by rw [counts, tally.executions]
      backdates := by rw [counts, tally.backdates, isOlder]
      evictions := by rw [counts, tally.evictions]
      identity := tally.identity }

theorem compute (tally : base.Tally revision cache first next inserted computed)
    (others : ∀ other, other ≠ query → after.view? other = cache.view? other)
    {old : View S query} {value : S.Value query} {below : List S.Query} {own : List Diagnostic}
    (before : cache.view? query = some old)
    (start : (base.view? query).getD (.fresh query revision) = old)
    (older : old.value.isSome → old.changedAt ≠ revision)
    (result : after.view? query = some (old.recomputed rules revision value below own))
    (size : after.size = cache.size)
    (counts : after.counts = (cache.countExecution
      (old.value.any (rules.isUnchanged query · value))).counts) :
    base.Tally revision after first (next + 1) inserted (query :: computed) := by
  have executions : base.executionsOf query = old.executions := by
    unfold executionsOf
    cases known : base.view? query with
    | none => rw [known] at start; cases start; rfl
    | some view => rw [known] at start; cases start; rfl
  have new : query ∉ computed := by
    rw [tally.mem_computed, executions]
    simp [executionsOf, before]
  have isOlder : after.isOlder revision query =
      old.value.any (rules.isUnchanged query · value) := by
    simp only [Cache.isOlder, result, Option.any_some, View.recomputed]
    cases stored : old.value with
    | none => simp
    | some known =>
      have older := older (by simp [stored])
      cases unchanged : rules.isUnchanged query known value <;> simp [unchanged, older]
  have rest : computed.countP (after.isOlder revision) =
      computed.countP (cache.isOlder revision) := by
    refine List.countP_congr fun other member => ?_
    have differ : other ≠ query := by
      rintro rfl
      exact new member
    simp only [Cache.isOlder, others other differ]
  exact
    { nodup_inserted := tally.nodup_inserted
      mem_inserted := fun other => by
        rw [tally.mem_inserted]
        by_cases same : other = query
        · subst same
          simp [before, result]
        · rw [others other same]
      nodup_computed := List.nodup_cons.mpr ⟨new, tally.nodup_computed⟩
      mem_computed := fun other => by
        by_cases same : other = query
        · subst same
          rw [executions]
          simp [executionsOf, result, View.recomputed]
        · have kept : after.executionsOf other = cache.executionsOf other := by
            simp only [executionsOf, others other same]
          rw [kept, ← tally.mem_computed]
          simp [same]
      size := size.trans tally.size
      executions := by
        rw [counts, List.length_cons, ← Nat.add_assoc, ← tally.executions]
        rfl
      backdates := by
        rw [counts, List.countP_cons, rest, isOlder, ← Nat.add_assoc, ← tally.backdates]
        rfl
      evictions := by rw [counts, ← tally.evictions]; rfl
      identity := by rw [tally.identity, List.length_cons, Nat.add_assoc] }

end Tally

/-- Dependencies that were checked are as they were when the memo was verified. -/
theorem Checked.found (sound : cache.WellFormed) {since : Revision} {entry : Entry S query}
    (checked : cache.Checked revision since entry.dependencies) {other : S.Query}
    (read : other ∈ (cache.viewOf entry).dependencies) :
    cache.Found revision (· ≤ since) other := by
  obtain ⟨dependency, read, assigned⟩ := List.mem_filterMap.mp read
  obtain ⟨third, known, there, current, unchanged⟩ := checked dependency read
  rw [query?_eq there] at assigned
  cases assigned
  exact sound.found there current unchanged

theorem Reason.found (sound : cache.WellFormed) {entry : Entry S query}
    (reason : cache.Reason rules revision entry) (value : (cache.viewOf entry).value.isSome) :
    rules.isVolatile query = true ∨ ∃ other ∈ (cache.viewOf entry).dependencies,
      cache.Found revision (entry.verifiedAt < ·) other := by
  cases reason with
  | unset none => simp [viewOf, none] at value
  | volatile volatile => exact .inl volatile
  | @changed dependency other known read there current newer =>
    refine .inr ⟨other, ?_, sound.found there current newer⟩
    exact List.mem_filterMap.mpr ⟨dependency, read, query?_eq there⟩

theorem any_viewOf (entry : Entry S query) (value : S.Value query) :
    (cache.viewOf entry).value.any (rules.isUnchanged query · value) =
      entry.isBackdated rules value := by
  unfold viewOf Entry.isBackdated
  cases entry.value <;> rfl

namespace Evolves

variable {reached : S.Query → Prop} {account : Account rules} {slot : Nat}

theorem insert (evolves : base.Evolves rules revision reached first cache next)
    (accounted : cache.Accounted account revision) (absent : ∀ slot, cache.query? slot ≠ some query)
    (isReached : reached query) :
    base.Evolves rules revision reached first (cache.insert query .derived revision).2 next := by
  have unknown : cache.view? query = none :=
    (view?_eq_none_iff accounted.wellFormed).mpr fun ⟨slot, here⟩ => absent slot here
  have none : base.view? query = none := by
    cases evolves.fate query with
    | kept kept => exact kept.symm.trans unknown
    | fresh _ result => simp [result] at unknown
    | verified _ _ _ _ result => simp [result] at unknown
    | computed _ _ _ _ result => simp [result] at unknown
  have others : ∀ other, other ≠ query →
      (cache.insert query .derived revision).2.view? other = cache.view? other :=
    fun other => accounted.view?_insert_ne absent
  have result := accounted.view?_insert_self absent
  obtain ⟨inserted, computed, tally⟩ := evolves.tally
  exact evolves.change others (by simp [unknown]) (.fresh none result) isReached
    (tally.insert others unknown none result (accounted.wellFormed.size_insert ..)
      (counts_insert ..))

theorem verify (evolves : base.Evolves rules revision reached first cache next)
    (sound : cache.WellFormed) {entry : Entry S query} {shared : Shared (S.Value query)}
    (renews : cache.Renews account revision slot entry { entry with verifiedAt := revision } shared)
    (checked : entry.origin = .derived → rules.isVolatile query = false ∧
      cache.Checked revision entry.verifiedAt entry.dependencies)
    (isReached : reached query) :
    base.Evolves rules revision reached first
      (cache.put slot ⟨query, { entry with verifiedAt := revision }⟩) next := by
  have before := sound.view?_eq renews.live
  have others : ∀ other, other ≠ query →
      (cache.put slot ⟨query, { entry with verifiedAt := revision }⟩).view? other =
        cache.view? other :=
    fun other => renews.view?_ne sound
  have result := renews.view?_self sound
  have stale : ∀ view, cache.view? query = some view → ¬ view.IsCurrent revision :=
    renews.stale_view sound
  have value : (cache.viewOf entry).value.isSome := by
    have value : entry.value = some shared := renews.value
    simp [viewOf, value]
  obtain ⟨inserted, computed, tally⟩ := evolves.tally
  refine evolves.change others stale ?_ isReached
    (tally.keep others before result rfl rfl (size_put ..) rfl)
  have keeps := Keeps.of_ne others stale
  have start := (evolves.fate query).of_stale before (stale _ before)
  cases known : base.view? query with
  | none =>
    -- a slot that is just taken holds no value
    rw [known] at start
    rw [← start] at value
    simp [View.fresh] at value
  | some old =>
    rw [known] at start
    obtain rfl : old = cache.viewOf entry := start
    refine .verified known (stale _ before) value (fun derived => ?_) result
    exact (checked derived).imp_right fun checked other read => keeps.found (checked.found sound read)

theorem compute (evolves : base.Evolves rules revision reached first cache next)
    (accounted : cache.Accounted account revision) {entry : Entry S query} {value : S.Value query}
    {frame : Frame}
    (renews : cache.Renews account revision slot entry
      (entry.recomputed rules revision ⟨next, value⟩ frame) ⟨next, value⟩)
    (derived : entry.origin = .derived) (reason : cache.Reason rules revision entry)
    (isReached : reached query) :
    base.Evolves rules revision reached first
      ((cache.put slot ⟨query, entry.recomputed rules revision ⟨next, value⟩ frame⟩).countExecution
        (entry.isBackdated rules value)) (next + 1) := by
  have sound := accounted.wellFormed
  have before := sound.view?_eq renews.live
  let after := (cache.put slot ⟨query, entry.recomputed rules revision ⟨next, value⟩ frame⟩)
    |>.countExecution (entry.isBackdated rules value)
  have others : ∀ other, other ≠ query → after.view? other = cache.view? other :=
    fun other => renews.view?_ne sound
  have stale : ∀ view, cache.view? query = some view → ¬ view.IsCurrent revision :=
    renews.stale_view sound
  have result := renews.view?_self sound
  rw [viewOf_recomputed] at result
  have start := (evolves.fate query).of_stale before (stale _ before)
  have older : (cache.viewOf entry).value.isSome → (cache.viewOf entry).changedAt ≠ revision := by
    intro value same
    have changedAt := accounted.changedAt_le renews.live
    have verifiedAt := accounted.verifiedAt_le renews.live
    have same : entry.changedAt = revision := same
    exact stale _ before ⟨value, Nat.le_antisymm verifiedAt (same ▸ changedAt)⟩
  obtain ⟨inserted, computed, tally⟩ := evolves.tally
  refine evolves.change others stale ?_ isReached
    (tally.compute others before start older result (size_put ..) (by rw [any_viewOf]; rfl))
  have keeps := Keeps.of_ne others stale
  refine .computed start (stale _ before) derived (fun value => ?_) result
  exact (reason.found sound value).imp_right fun ⟨other, read, found⟩ =>
    ⟨other, read, keeps.found found⟩

end Evolves

end Cache

/-- A query that is requested along a path is reached from the first query of the path. -/
theorem Rules.Requested.reached {snapshot : Snapshot S} {path : List S.Query}
    {query root : S.Query} (requested : rules.Requested snapshot path query)
    (suffix : [root] <:+ query :: path) :
    Relation.ReflTransGen (rules.Requests snapshot) root query := by
  obtain rfl | member := List.mem_cons.mp (suffix.subset (List.mem_singleton_self root))
  · exact .refl
  · exact (requested.transGen member).to_reflTransGen

/-- What a request does to the memos is told by the memos before: each step settles one query that
was not verified in the revision. -/
theorem Cache.Changes.evolves {deterministic : rules.Deterministic environment} {now : S.World}
    {input? : (query : S.Query) → Option (S.Value query)} {revision : Revision}
    {base start last : Cache S} {first second third : Nat} {root : S.Query}
    {reached : S.Query → Prop}
    (changes : start.Changes (.fromScratch deterministic now input?) revision [root] second last
      third)
    (accounted : start.Accounted (.fromScratch deterministic now input?) revision)
    (evolves : base.Evolves rules revision reached first start second)
    (reaches : ∀ query,
      Relation.ReflTransGen (rules.Requests (rules.snapshot now input?)) root query →
        reached query) :
    base.Evolves rules revision reached first last third := by
  induction changes with
  | refl => exact evolves
  | recount hits validations _ ih =>
    obtain ⟨fate, idle, inserted, computed, tally⟩ := ih
    exact ⟨fun query => (fate query).keep (fun _ _ known _ => known) rfl, idle, inserted, computed,
      tally.recount hits validations⟩
  | insert changes absent requested within ih =>
    exact ih.insert (changes.accounted accounted) absent (reaches _ (requested.reached within))
  | verify changes renews checked requested within ih =>
    exact ih.verify (changes.accounted accounted).wellFormed renews checked
      (reaches _ (requested.reached within))
  | compute changes renews derived reason requested within ih =>
    exact ih.compute (changes.accounted accounted) renews derived reason
      (reaches _ (requested.reached within))

end IncrementalFrontend
