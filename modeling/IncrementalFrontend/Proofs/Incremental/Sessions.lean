import IncrementalFrontend.Proofs.Incremental.Failing
import IncrementalFrontend.Proofs.Incremental.Stored

/-!
Sessions as sequences of contexts, and what their requests execute. While a revision lasts, a query
is computed to its end at most once: its memo is verified in the revision from then on, and neither
requests nor collections touch such a memo.
-/
namespace IncrementalFrontend

variable {S : Signature} {rules : Rules S} {drift : S.World → S.World → Prop} {query : S.Query}

namespace Run

variable {depth inner slot : Nat} {other : S.Query} {path : List S.Query}
  {context there start after last : Context S}

/-- A request from outside leaves the memos that the fetch of its query leaves. -/
theorem exists_fetch_of_request {account : Account rules}
    {outcome : Except QueryError (Shared (S.Value query))} (sound : context.Sound account [])
    (made : account.journal.made depth query context)
    (ran : request rules depth query context = some (outcome, last)) :
    ∃ result after, fetch rules depth query context = some (result, after) ∧
      last.cache = after.cache ∧ last.revision = after.revision ∧
      outcome = result.map (·.2) := by
  cases fetched : fetch rules depth query context with
  | none => cases (access_of_none fetched).symm.trans ran
  | some result =>
    obtain ⟨result, after⟩ := result
    refine ⟨result, after, rfl, ?_⟩
    cases result with
    | error error =>
      cases (access_of_error fetched).symm.trans ran
      exact ⟨rfl, rfl, rfl⟩
    | ok result =>
      obtain ⟨diagnostics, answered⟩ := Context.exists_request_eq sound made fetched
      cases answered.symm.trans ran
      exact ⟨rfl, rfl, rfl⟩

/-- What is known where a query starts to be computed is still known when its request ends. -/
theorem Starts.later {result : Except QueryError (Nat × Shared (S.Value query))}
    (starts : Starts rules (fetch rules depth) query context slot start)
    (sound : context.Sound (.plain rules) path)
    (ran : fetch rules (depth + 1) query context = some (result, last)) : Later start last := by
  obtain ⟨sound', -, entry, here, derived, stale, reason⟩ := starts.sound sound
  have executed : execute rules (fetch rules depth) slot query start = some (result, last) :=
    starts.answer_eq.symm.trans ran
  have fetched := (meets_execute (serves_fetch _ depth) sound' here derived stale reason trivial
    trivial starts).2 _ _ executed
  exact .of_grows fetched.grows

theorem Involves.later {result : Except QueryError (Nat × Shared (S.Value query))}
    (involves : Involves rules depth query context (inner + 1) other there)
    (starts : Starts rules (fetch rules inner) other there slot start)
    (propagates : ∀ query, (rules.compute query).Propagates)
    (sound : context.Sound (.plain rules) path)
    (answered : fetch rules depth query context = some (result, last)) : Later start last := by
  cases ran : fetch rules (inner + 1) other there with
  | none => cases (involves.exhausted ran).symm.trans answered
  | some ended =>
    obtain ⟨⟨path, sound'⟩, -⟩ := involves.sound sound
    exact (starts.later sound' ran).trans (involves.passes propagates sound ran answered).1

end Run

namespace Context

variable {context after : Context S} {slot : Nat} {shared : Shared (S.Value query)}
  {entry : Entry S query}

def Begins (rules : Rules S) (context after : Context S) (query : S.Query) : Prop :=
  ∃ depth asked outcome, Run.request rules depth asked context = some (outcome, after) ∧
    ∃ inner there slot start, Run.Involves rules depth asked context (inner + 1) query there ∧
      Run.Starts rules (Run.fetch rules inner) query there slot start

/-- A request leads from one context to the other, and completes the execution of the query on its
way. Each completed execution stores its result with an identity of its own. -/
def Completes (rules : Rules S) (context after : Context S) (query : S.Query)
    (shared : Shared (S.Value query)) : Prop :=
  ∃ depth asked outcome, Run.request rules depth asked context = some (outcome, after) ∧
    ∃ inner there slot start last,
      Run.Involves rules depth asked context (inner + 1) query there ∧
      Run.Starts rules (Run.fetch rules inner) query there slot start ∧
      Run.execute rules (Run.fetch rules inner) slot query start = some (.ok (slot, shared), last)

theorem Completes.begins (completes : Completes rules context after query shared) :
    Begins rules context after query := by
  obtain ⟨depth, asked, outcome, ran, inner, there, slot, start, -, involves, starts, -⟩ :=
    completes
  exact ⟨depth, asked, outcome, ran, inner, there, slot, start, involves, starts⟩

/-- No query with a memo of the revision is computed. -/
theorem Begins.not_isCurrent (begins : Begins rules context after query)
    (sound : context.Sound (.plain rules) [])
    (here : context.cache.memo? slot = some ⟨query, entry⟩) :
    ¬ entry.IsCurrent context.revision := by
  intro current
  obtain ⟨depth, asked, outcome, -, inner, there, place, start, involves, starts⟩ := begins
  obtain ⟨⟨path, sound'⟩, grows, revision⟩ := involves.sound sound
  obtain ⟨begun, grows', entry', here', -, stale, -⟩ := starts.sound sound'
  have kept := grows'.cache.memo?_of_isCurrent (grows.memo?_of_isCurrent here current)
    (revision ▸ current)
  obtain rfl := begun.accounted.wellFormed.unique (Cache.query?_eq kept) (Cache.query?_eq here')
  cases kept.symm.trans here'
  exact stale (by rwa [grows'.revision, revision])

/-- A completed execution leaves a memo of the revision. -/
theorem Completes.exists_current (completes : Completes rules context after query shared)
    (propagates : ∀ query, (rules.compute query).Propagates)
    (sound : context.Sound (.plain rules) []) :
    after.revision = context.revision ∧ ∃ slot entry,
      after.cache.memo? slot = some ⟨query, entry⟩ ∧ entry.value = some shared ∧
        entry.verifiedAt = context.revision := by
  obtain ⟨depth, asked, outcome, ran, inner, there, slot, start, last, involves, starts,
    executed⟩ := completes
  obtain ⟨result, middle, fetched, cache, -⟩ := Run.exists_fetch_of_request sound trivial ran
  obtain ⟨⟨path, sound'⟩, -, revision⟩ := involves.sound sound
  have served : Run.fetch rules (inner + 1) query there = some (.ok (slot, shared), last) :=
    starts.answer_eq.trans executed
  have nested := (Run.serves_fetch (.plain rules) _ _ _ _ sound' trivial trivial).2 _ _ served
  obtain ⟨entry, here, value, now⟩ := nested.ok slot shared rfl
  obtain ⟨grows, -⟩ := (involves.passes propagates sound served fetched).1
  refine ⟨((meets_request sound trivial).2 _ _ ran).revision, slot, entry, ?_, value,
    now.trans (nested.grows.revision.trans revision)⟩
  rw [cache]
  exact grows.memo?_of_isCurrent here ⟨by simp [value], now⟩

theorem revision_collected (context : Context S) :
    (context.collected rules).revision = context.revision := by
  unfold collected
  split <;> rfl

theorem revision_advance (context : Context S) :
    (context.advance rules).revision = context.revision + 1 :=
  congrArg (· + 1) (revision_collected context)

theorem Step.revision_le (step : Step rules drift context after)
    (sound : context.Sound (.plain rules) []) : context.revision ≤ after.revision := by
  have advances : context.revision ≤ (context.advance rules).revision := by
    rw [revision_advance]
    exact Nat.le_succ _
  cases step with
  | request ran => exact Nat.le_of_eq ((meets_request sound trivial).2 _ _ ran).revision.symm
  | setInput query value world unchanged =>
    unfold Context.setInput
    cases context.unchangedInput? rules query value with
    | some revision => exact Nat.le_refl _
    | none => exact advances
  | advance world => exact advances
  | report diagnostic =>
    unfold Context.report
    split <;> exact Nat.le_refl _
  | collectGarbage | hold | takeDiagnostics | drift => exact Nat.le_refl _

/-- While the revision lasts, nothing touches its memos. -/
theorem Step.memo?_of_isCurrent (step : Step rules drift context after)
    (sound : context.Sound (.plain rules) []) (same : after.revision = context.revision)
    (here : context.cache.memo? slot = some ⟨query, entry⟩)
    (current : entry.IsCurrent context.revision) :
    after.cache.memo? slot = some ⟨query, entry⟩ := by
  have advances (same : (context.advance rules).revision = context.revision) : False := by
    rw [revision_advance] at same
    exact Nat.succ_ne_self _ same
  cases step with
  | request ran =>
    have answered := (meets_request sound trivial).2 _ _ ran
    exact answered.cache.memo?_of_isCurrent here current
  | setInput other value world unchanged =>
    unfold Context.setInput at same ⊢
    cases known : context.unchangedInput? rules other value with
    | some revision => exact here
    | none =>
      rw [known] at same
      exact (advances same).elim
  | advance world => exact (advances same).elim
  | collectGarbage =>
    refine (Cache.memo?_evict_of_not_mem fun member => ?_).trans here
    obtain ⟨other, known, there, -, stale⟩ := derived_of_mem_collectable member
    cases here.symm.trans there
    exact stale current
  | report diagnostic =>
    unfold Context.report
    split <;> exact here
  | hold | takeDiagnostics | drift => exact here

/-- The contexts of a session, one after the other. A session that is over stays as it is. -/
structure IsSession (rules : Rules S) (drift : S.World → S.World → Prop)
    (session : Nat → Context S) : Prop where
  start : ∃ world collects, session 0 = .start world collects
  step : ∀ time, Step rules drift (session time) (session (time + 1))

/-- Each context that a session can get to is one of a session. -/
theorem Reachable.exists_isSession (reachable : context.Reachable rules drift) :
    ∃ session time, IsSession rules drift session ∧ session time = context := by
  obtain ⟨world, collects, leads⟩ := reachable
  induction leads with
  | refl =>
    refine ⟨fun _ => .start world collects, 0, ?_, rfl⟩
    exact ⟨⟨world, collects, rfl⟩, fun _ => .hold _ _⟩
  | @tail before after _ step ih =>
    obtain ⟨session, time, isSession, rfl⟩ := ih
    refine ⟨fun moment => if moment ≤ time then session moment else after, time + 1,
      ⟨by simpa using isSession.start, fun moment => ?_⟩, by simp⟩
    obtain earlier | rfl | later := Nat.lt_trichotomy moment time
    · rw [if_pos (Nat.le_of_lt earlier), if_pos (Nat.succ_le_of_lt earlier)]
      exact isSession.step moment
    · rw [if_pos (Nat.le_refl _), if_neg (Nat.not_succ_le_self _)]
      exact step
    · rw [if_neg (Nat.not_le.mpr later), if_neg (Nat.not_le.mpr (Nat.lt_succ_of_lt later))]
      exact .hold after after.handles

namespace IsSession

variable {session : Nat → Context S} {first last : Nat}

theorem reachable (isSession : IsSession rules drift session) (time : Nat) :
    (session time).Reachable rules drift := by
  induction time with
  | zero =>
    obtain ⟨world, collects, start⟩ := isSession.start
    exact ⟨world, collects, start ▸ .refl⟩
  | succ time ih =>
    obtain ⟨world, collects, leads⟩ := ih
    exact ⟨world, collects, leads.tail (isSession.step time)⟩

theorem sound (isSession : IsSession rules drift session) (time : Nat) :
    (session time).Sound (.plain rules) [] :=
  (isSession.reachable time).sound_plain

theorem revision_le (isSession : IsSession rules drift session) (order : first ≤ last) :
    (session first).revision ≤ (session last).revision := by
  induction last, order using Nat.le_induction with
  | base => exact Nat.le_refl _
  | succ last _ ih =>
    exact Nat.le_trans ih ((isSession.step last).revision_le (isSession.sound last))

theorem memo?_of_isCurrent (isSession : IsSession rules drift session) (order : first ≤ last)
    (same : (session first).revision = (session last).revision)
    (here : (session first).cache.memo? slot = some ⟨query, entry⟩)
    (current : entry.IsCurrent (session first).revision) :
    (session last).cache.memo? slot = some ⟨query, entry⟩ := by
  induction last, order using Nat.le_induction with
  | base => exact here
  | succ last order ih =>
    have between : (session first).revision = (session last).revision :=
      Nat.le_antisymm (isSession.revision_le order)
        (same ▸ isSession.revision_le (Nat.le_succ last))
    refine (isSession.step last).memo?_of_isCurrent (isSession.sound last) ?_ (ih between) ?_
    · exact same.symm.trans between
    · exact between ▸ current

/-- Once its execution was completed, a query is not computed again while the revision lasts. -/
theorem not_begins_of_completes (isSession : IsSession rules drift session)
    (propagates : ∀ query, (rules.compute query).Propagates) (order : first < last)
    (completes : Completes rules (session first) (session (first + 1)) query shared)
    (same : (session first).revision = (session last).revision) :
    ¬ Begins rules (session last) (session (last + 1)) query := by
  intro begins
  obtain ⟨revision, slot, entry, here, value, now⟩ :=
    completes.exists_current propagates (isSession.sound first)
  have current : entry.IsCurrent (session (first + 1)).revision :=
    ⟨by simp [value], now.trans revision.symm⟩
  have kept := isSession.memo?_of_isCurrent order (revision.trans same) here current
  exact begins.not_isCurrent (isSession.sound last) kept ((revision.trans same) ▸ current)

/-- Within a revision, the execution of a query is completed at most once. -/
theorem completes_unique (isSession : IsSession rules drift session)
    (propagates : ∀ query, (rules.compute query).Propagates) {shared' : Shared (S.Value query)}
    (one : Completes rules (session first) (session (first + 1)) query shared)
    (two : Completes rules (session last) (session (last + 1)) query shared')
    (same : (session first).revision = (session last).revision) :
    first = last ∧ shared = shared' := by
  obtain earlier | rfl | later := Nat.lt_trichotomy first last
  · exact absurd two.begins (isSession.not_begins_of_completes propagates earlier one same)
  · obtain ⟨-, slot, entry, here, value, -⟩ := one.exists_current propagates (isSession.sound first)
    obtain ⟨-, slot', entry', there, value', -⟩ :=
      two.exists_current propagates (isSession.sound first)
    have stored : (session (first + 1)).cache.Stores query shared := ⟨slot, entry, here, value⟩
    exact ⟨rfl, stored.unique (isSession.sound (first + 1)).accounted.wellFormed
      ⟨slot', entry', there, value'⟩⟩
  · exact absurd one.begins (isSession.not_begins_of_completes propagates later two same.symm)

end IsSession

end Context

end IncrementalFrontend
