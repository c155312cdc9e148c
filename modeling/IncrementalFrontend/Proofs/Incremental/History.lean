import Mathlib.Logic.Relation
import IncrementalFrontend.Proofs.Incremental.Delivery
import IncrementalFrontend.Proofs.Incremental.Equations
import IncrementalFrontend.Proofs.Incremental.Revising

/-!
Histories of sessions: requests, changes of inputs, new revisions and collections in any order.
What an account says of the memos holds all along, if accounts of later revisions follow from those
of earlier ones.
-/
namespace IncrementalFrontend

variable {S : Signature} {rules : Rules S} {drift : S.World → S.World → Prop}

namespace Context

/-- What can happen to a session from outside. The world changes as it likes when a revision starts,
and otherwise as `drift` says. -/
inductive Step (rules : Rules S) (drift : S.World → S.World → Prop) : Context S → Context S → Prop
  | request {context after : Context S} {depth : Nat} {query : S.Query}
      {outcome : Except QueryError (Shared (S.Value query))} :
      Run.request rules depth query context = some (outcome, after) → Step rules drift context after
  | setInput (context : Context S) (query : S.Query) (value : S.Value query) (world : S.World) :
      (context.unchangedInput? rules query value = none ∨ drift context.world world) →
        Step rules drift context { (context.setInput rules query value).2 with world }
  | advance (context : Context S) (world : S.World) :
      Step rules drift context { context.advance rules with world }
  | collectGarbage (context : Context S) :
      Step rules drift context (context.collectGarbage rules).2
  | hold (context : Context S) (handles : List Nat) :
      Step rules drift context { context with handles }
  | report (context : Context S) (diagnostic : Diagnostic) :
      Step rules drift context (context.report diagnostic)
  | takeDiagnostics (context : Context S) : Step rules drift context context.takeDiagnostics.2
  | drift (context : Context S) (world : S.World) :
      drift context.world world → Step rules drift context { context with world }

def Leads (rules : Rules S) (drift : S.World → S.World → Prop) : Context S → Context S → Prop :=
  Relation.ReflTransGen (Step rules drift)

def Reachable (rules : Rules S) (drift : S.World → S.World → Prop) (context : Context S) : Prop :=
  ∃ world collects, Leads rules drift (.start world collects) context

def history (rules : Rules S) (drift : S.World → S.World → Prop) (context : Context S) :
    Journal rules where
  made depth query there := ∃ earlier outer asked outcome later,
    earlier.Reachable rules drift ∧
      Run.request rules outer asked earlier = some (outcome, later) ∧
      Leads rules drift later context ∧ Run.Involves rules outer asked earlier depth query there
  nested := by
    rintro _ _ _ _ _ ⟨earlier, outer, asked, outcome, later, reachable, ran, leads, involves⟩ nests
    exact ⟨earlier, outer, asked, outcome, later, reachable, ran, leads, involves.nested nests⟩

theorem Leads.history_within {context after : Context S} (leads : Leads rules drift context after) :
    (context.history rules drift).Within (after.history rules drift) := by
  rintro _ _ _ ⟨earlier, outer, asked, outcome, later, reachable, ran, before, involves⟩
  exact ⟨earlier, outer, asked, outcome, later, reachable, ran, before.trans leads, involves⟩

end Context

/-- An account for each revision, by the world and the inputs in it. -/
structure Accounting (rules : Rules S) (drift : S.World → S.World → Prop) where
  account : S.World → ((query : S.Query) → Option (S.Value query)) → Account rules
  world : ∀ now input?, (account now input?).world now
  drifts : ∀ {now input? current next}, (account now input?).world current → drift current next →
    (account now input?).world next
  past : ∀ {now input? next input?' replies}, (account now input?).past replies →
    (account next input?').past replies
  exact : ∀ {now input? next input?'}, (account next input?').exact → (account now input?).exact
  input : ∀ {now input? query value}, input? query = some value →
    (account now input?).answer query value
  free : ∀ {now input? query}, input? query = none → (account now input?).free query

namespace Accounting

def plain (rules : Rules S) (drift : S.World → S.World → Prop) : Accounting rules drift where
  account _ _ := .plain rules
  world _ _ := trivial
  drifts _ _ := trivial
  past := id
  exact := id
  input _ := trivial
  free _ := trivial

end Accounting

namespace Context

variable {account : Account rules} {context after : Context S}

def Follows (accounting : Accounting rules drift) (context : Context S) : Prop :=
  ∃ now, context.Sound ((accounting.account now context.cache.input?).among
    (context.history rules drift)) []

theorem Sound.active_eq (sound : context.Sound account []) : context.active = [] := by
  have none := sound.inFlight
  rw [List.map_nil, List.map_eq_nil_iff] at none
  exact List.map_eq_nil_iff.mp none

theorem Sound.of_idle (accounted : context.cache.Accounted account context.revision)
    (world : account.world context.world) (idle : context.active = []) : context.Sound account
    [] where
  accounted := accounted
  world := world
  inFlight := by simp [busy, idle]
  waiting := by simp [busy, idle]

theorem follows_start (accounting : Accounting rules drift) (world : S.World) (collects : Bool) :
    (Context.start world collects).Follows accounting := by
  refine ⟨world, .of_idle ?_ (accounting.world _ _) rfl⟩
  have none {slot : Nat} {query : S.Query} {entry : Entry S query} :
      ¬ (Cache.empty : Cache S).memo? slot = some ⟨query, entry⟩ := by
    simp
  exact
    { wellFormed := ⟨by simp [start, Cache.query?], by simp [start, Cache.empty],
        by simp [start, Cache.empty]⟩
      changedAt_le := fun here => absurd here none
      verifiedAt_le := fun here => absurd here none
      ofInput := fun here => absurd here none
      ofNone := fun here => absurd here none
      dependency := fun here => absurd here none
      recorded := fun here => absurd here none
      current := fun here => absurd here none
      input := accounting.input
      free := accounting.free }

structure Answered (account : Account rules) (query : S.Query) (before : Context S)
    (outcome : Except QueryError (Shared (S.Value query))) (after : Context S) : Prop where
  sound : after.Sound account []
  cache : before.cache.Grows account.exact before.revision [] after.cache
  changes : before.cache.Changes account before.revision [query] before.nextIdentity after.cache
    after.nextIdentity
  revision : after.revision = before.revision
  handles : after.handles = before.handles
  ok : ∀ shared, outcome = .ok shared → ∃ slot entry diagnostics,
    after.cache.memo? slot = some ⟨query, entry⟩ ∧ entry.value = some shared ∧
      entry.verifiedAt = after.revision ∧ after.cache.diagnosticsBelow slot = .ok diagnostics ∧
      after.sink = before.sink.append diagnostics
  error : ∀ error, outcome = .error error →
    after.cache.Breaks account after.revision [] query error ∧ after.sink = before.sink

theorem exists_diagnosticsBelow (accounted : context.cache.Accounted account context.revision)
    {slot : Nat} {query : S.Query} (here : context.cache.query? slot = some query) :
    ∃ diagnostics, context.cache.diagnosticsBelow slot = .ok diagnostics := by
  have knows : context.cache.Describes (fun _ _ _ => True)
      fun slot => ∃ query, context.cache.query? slot = some query := by
    rintro slot ⟨query, here⟩
    obtain ⟨entry, here⟩ := Cache.memo?_of_query? here
    obtain ⟨below, dependencies⟩ := accounted.exists_below here
    refine ⟨query, entry, below, here, trivial, dependencies, fun dependency read => ?_⟩
    obtain ⟨other, known, there, -⟩ := accounted.dependency here dependency read
    exact ⟨other, Cache.query?_eq there⟩
  obtain ⟨_, diagnostics, -, delivered⟩ := Cache.diagnosticsBelow_eq _ _
    accounted.wellFormed knows ⟨query, here⟩ here
  exact ⟨diagnostics, delivered⟩

/-- A query that is answered is answered from outside as well. -/
theorem exists_request_eq (sound : context.Sound account []) {depth slot : Nat} {query : S.Query}
    {shared : Shared (S.Value query)} {after : Context S}
    (made : account.journal.made depth query context)
    (fetched : Run.fetch rules depth query context = some (.ok (slot, shared), after)) :
    ∃ diagnostics, Run.request rules depth query context =
      some (.ok shared, { after with sink := after.sink.append diagnostics }) := by
  have answered := (Run.serves_fetch account depth [] query context sound
    (account.requested_nil query) made).2 _ _ fetched
  obtain ⟨entry, here, -⟩ := answered.ok slot shared rfl
  obtain ⟨diagnostics, below⟩ :=
    exists_diagnosticsBelow answered.sound.accounted (Cache.query?_eq here)
  exact ⟨diagnostics, Run.request_eq sound.active_eq fetched below⟩

theorem meets_request (sound : context.Sound account []) {depth : Nat} {query : S.Query}
    (made : account.journal.made depth query context) :
    (Run.request rules depth query).Meets context (account.settles depth [] query)
      (Answered account query context) := by
  have idle := sound.active_eq
  have outside : context.isInQuery = false := by simp [isInQuery, idle]
  have serves := Run.serves_fetch account depth [] query context sound (account.requested_nil query)
    made
  unfold Run.request Run.access
  refine Run.meets_get_bind (Run.meets_bind (serves.mono ?_))
  intro outcome after fetched
  have cache := fetched.grows.cache
  rw [show context.busy = [] by simp [busy, idle]] at cache
  cases outcome with
  | error error =>
    refine ⟨fetched.sound, cache, fetched.grows.changes, fetched.grows.revision,
      fetched.grows.handles, by simp, ?_⟩
    rintro _ ⟨⟩
    exact ⟨fetched.error error rfl, fetched.grows.sink⟩
  | ok result =>
    obtain ⟨slot, shared⟩ := result
    obtain ⟨entry, here, value, now⟩ := fetched.ok slot shared rfl
    simp only [outside, Bool.false_eq_true, if_false]
    obtain ⟨diagnostics, delivered⟩ :=
      exists_diagnosticsBelow fetched.sound.accounted (Cache.query?_eq here)
    refine Run.Meets.congr (Run.meets_pure ?_) (Run.bind_of_eq (Run.deliver_apply delivered) _)
    refine ⟨⟨fetched.sound.accounted, fetched.sound.world, fetched.sound.inFlight,
      fetched.sound.waiting⟩, cache, fetched.grows.changes, fetched.grows.revision,
      fetched.grows.handles, ?_, by simp⟩
    rintro _ ⟨⟩
    refine ⟨slot, entry, diagnostics, here, value, now, delivered, ?_⟩
    rw [← fetched.grows.sink]

theorem Sound.collectGarbage (sound : context.Sound account []) :
    (context.collectGarbage rules).2.Sound account [] :=
  .of_idle (accounted_collectGarbage sound.accounted).1 sound.world sound.active_eq

theorem Sound.collected (sound : context.Sound account []) :
    (context.collected rules).Sound account [] ∧
      (context.collected rules).cache.input? = context.cache.input? := by
  unfold Context.collected
  split
  · exact ⟨sound.collectGarbage, (accounted_collectGarbage sound.accounted).2⟩
  · exact ⟨sound, rfl⟩

section Revising

variable {accounting : Accounting rules drift}

/-- A step that leaves the memos alone. -/
theorem Follows.of_cache (follows : context.Follows accounting)
    (step : Step rules drift context after)
    (cache : after.cache = context.cache) (revision : after.revision = context.revision)
    (active : after.active = context.active)
    (world : after.world = context.world ∨ drift context.world after.world) :
    after.Follows accounting := by
  obtain ⟨now, sound⟩ := follows
  refine ⟨now, .of_idle ?_ ?_ (active.trans sound.active_eq)⟩
  · rw [cache, revision]
    exact sound.accounted.among (Leads.history_within (.single step))
  · rw [cache]
    obtain same | drifts := world
    · exact same ▸ sound.world
    · exact accounting.drifts sound.world drifts

/-- A new revision starts with the memos of the one before, except for an input that is set. -/
theorem Sound.follows {now : S.World} {input? : (query : S.Query) → Option (S.Value query)}
    {journal : Journal rules}
    (sound : context.Sound ((accounting.account now input?).among journal) [])
    (within : journal.Within (after.history rules drift))
    (later : context.cache.Later after.revision after.cache)
    (newer : context.revision < after.revision) (active : after.active = context.active) :
    after.Follows accounting := by
  refine ⟨after.world, .of_idle ?_ (accounting.world _ _) (active.trans sound.active_eq)⟩
  exact sound.accounted.later newer later accounting.past within accounting.exact accounting.input
    accounting.free

theorem Follows.request (follows : context.Follows accounting)
    (reachable : context.Reachable rules drift) {depth : Nat} {query : S.Query}
    {outcome : Except QueryError (Shared (S.Value query))}
    (ran : Run.request rules depth query context = some (outcome, after)) :
    after.Follows accounting := by
  obtain ⟨now, sound⟩ := follows
  have known : context.Sound ((accounting.account now context.cache.input?).among
      ((context.history rules drift).adjoin depth query context)) [] :=
    sound.among fun _ _ _ => .inl
  have answered := (meets_request known (.inr .self)).2 outcome after ran
  refine ⟨now, ?_⟩
  rw [answered.cache.input?]
  refine answered.sound.among ?_
  rintro inner other there (made | involves)
  · exact Leads.history_within (.single (.request ran)) made
  · exact ⟨context, depth, query, outcome, after, reachable, ran, .refl, involves⟩

/-- Whatever happens, the memos follow the accounting. -/
theorem Follows.step (follows : context.Follows accounting)
    (reachable : context.Reachable rules drift)
    (step : Step rules drift context after) : after.Follows accounting := by
  have within := Leads.history_within (.single step)
  cases step with
  | request ran => exact follows.request reachable ran
  | setInput query value world unchanged =>
    cases known : context.unchangedInput? rules query value with
    | some revision =>
      have step : Step rules drift context _ := .setInput context query value world unchanged
      rw [setInput_of_unchanged known] at step ⊢
      have drifts := unchanged.resolve_left (by simp [known])
      exact follows.of_cache step rfl rfl rfl (.inr drifts)
    | none =>
      obtain ⟨now, sound⟩ := follows
      obtain ⟨collected, -⟩ := sound.collected
      obtain ⟨slot, entry, sets, -⟩ :=
        sets_storeInput (context.advance rules) collected.accounted.wellFormed query value
      rw [setInput_of_changed known] at within ⊢
      exact collected.follows within sets.later (Nat.lt_succ_self _) rfl
  | advance world =>
    obtain ⟨now, sound⟩ := follows
    obtain ⟨collected, -⟩ := sound.collected
    exact collected.follows within (.refl collected.accounted.wellFormed _) (Nat.lt_succ_self _) rfl
  | collectGarbage =>
    obtain ⟨now, sound⟩ := follows
    refine ⟨now, ?_⟩
    rw [(accounted_collectGarbage sound.accounted).2]
    exact sound.collectGarbage.among within
  | hold handles => exact follows.of_cache (.hold context handles) rfl rfl rfl (.inl rfl)
  | report diagnostic =>
    obtain ⟨now, sound⟩ := follows
    have reported : context.report diagnostic =
        { context with sink := context.sink.report diagnostic } := by
      simp [Context.report, sound.active_eq, addToFrames]
    refine Follows.of_cache ⟨now, sound⟩ (.report context diagnostic) ?_ ?_ ?_ (.inl ?_) <;>
      rw [reported]
  | takeDiagnostics => exact follows.of_cache (.takeDiagnostics context) rfl rfl rfl (.inl rfl)
  | drift world drifts =>
    exact follows.of_cache (.drift context world drifts) rfl rfl rfl (.inr drifts)

theorem Reachable.follows (reachable : context.Reachable rules drift)
    (accounting : Accounting rules drift) : context.Follows accounting := by
  obtain ⟨world, collects, leads⟩ := reachable
  induction leads with
  | refl => exact follows_start accounting world collects
  | tail leads step ih => exact ih.step ⟨world, collects, leads⟩ step

end Revising

end Context

end IncrementalFrontend
