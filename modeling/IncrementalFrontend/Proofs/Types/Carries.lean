import IncrementalFrontend.Frontend.Session
import IncrementalFrontend.Proofs.Frontend.Reads

/-!
What the steps of a session do to composite types. A stored type is stored for its own description;
it stays while a caller or a cached query refers to it, and new types get new identities.
-/
namespace IncrementalFrontend

open Frontend (Query World rules signature)

namespace Session

abbrev IsReachable (session : Session) : Prop :=
  Context.Reachable (S := signature) rules (fun _ _ => True) session

def account : Account rules :=
  .nesting (S := signature) Query.MentionsNone Frontend.Compute.isPlain_ofQuery

variable {session before after : Session}

theorem IsReachable.sound (reachable : session.IsReachable) :
    Context.Sound (S := signature) account [] session := by
  obtain ⟨now, sound⟩ := Context.Reachable.follows (S := signature) reachable
    (.nesting _ Query.MentionsNone Frontend.Compute.isPlain_ofQuery)
  exact sound.among fun _ _ _ _ => trivial

theorem IsReachable.step (reachable : before.IsReachable)
    (step : Context.Step (S := signature) rules (fun _ _ => True) before after) :
    after.IsReachable := by
  obtain ⟨world, collects, leads⟩ := reachable
  exact ⟨world, collects, leads.tail step⟩

/-- A request has the outcome of its run, unless the depth ran out and nothing happened. -/
theorem run_of_request {query : Query} {outcome : Except QueryError (Shared query.Value)}
    (requested : before.request query = (outcome, after)) :
    Run.request (S := signature) rules before.depthBound query before = some (outcome, after) ∨
      outcome = .error .stackMismatch ∧ after = before := by
  unfold Session.request at requested
  cases ran : (Run.request (S := signature) rules before.depthBound query).run before with
  | none =>
    rw [ran] at requested
    cases requested
    exact .inr ⟨rfl, rfl⟩
  | some result =>
    rw [ran] at requested
    exact .inl (ran.trans (congrArg some requested))

def StoresType (session : Session) (shared : Shared Composite) : Prop :=
  Cache.Stores (S := signature) session.cache (.composite shared.value) shared

def ComputesTypes (session : Session) : Prop :=
  ∀ type, Cache.input? (S := signature) session.cache (.composite type) = none

theorem IsReachable.value_eq (reachable : session.IsReachable) (computes : session.ComputesTypes)
    {type : Composite} {shared : Shared Composite}
    (stored : Cache.Stores (S := signature) session.cache (.composite type) shared) :
    shared.value = type := by
  obtain ⟨slot, entry, here, value⟩ := stored
  have accounted := reachable.sound.accounted
  refine (accounted.of_returns (Frontend.returns_composite type) here).2 ?_ shared value
  cases origin : entry.origin with
  | derived => rfl
  | input =>
    have isInput : Cache.input? (S := signature) session.cache (.composite type) =
        some shared.value :=
      (Cache.input?_eq_some_iff accounted.wellFormed).mpr
        ⟨slot, entry, here, origin, congrArg (Option.map (·.value)) value⟩
    rw [computes type] at isInput
    cases isInput

def KeepsTypes (before after : Session) : Prop :=
  ∀ shared, before.StoresType shared → after.StoresType shared

structure Carries (mentioned : List TypeId) (before after : Session) : Prop where
  adds : Cache.Adds (S := signature) before.cache before.nextIdentity after.cache after.nextIdentity
  computes : before.ComputesTypes → after.ComputesTypes
  knows : ∀ query, Cache.Knows (S := signature) after.cache query →
    Cache.Knows (S := signature) before.cache query ∨ query.references ⊆ mentioned
  keeps : ∀ shared, before.StoresType shared →
    Context.Refers (S := signature) rules before shared.identity → after.StoresType shared
  handles : after.handles = before.handles

namespace Carries

variable {mentioned : List TypeId} {query : Query}

theorem refl (mentioned : List TypeId) (session : Session) : session.Carries mentioned session where
  adds := .of_stores id
  computes := id
  knows _ := .inl
  keeps _ stored _ := stored
  handles := rfl

/-- A second step may follow that loses no type. -/
theorem trans {middle : Session} (first : before.Carries mentioned middle)
    (second : middle.Carries mentioned after) (keeps : middle.KeepsTypes after) :
    before.Carries mentioned after where
  adds := first.adds.trans second.adds
  computes := second.computes ∘ first.computes
  knows query known := by
    obtain known | within := second.knows query known
    · exact first.knows query known
    · exact .inr within
  keeps shared stored refers := keeps shared (first.keeps shared stored refers)
  handles := second.handles.trans first.handles

theorem mono {fewer : List TypeId} (carries : before.Carries fewer after)
    (subset : fewer ⊆ mentioned) : before.Carries mentioned after :=
  { carries with
    knows := fun query known => (carries.knows query known).imp_right (List.Subset.trans · subset) }

theorem of_cache (cache : after.cache = before.cache)
    (nextIdentity : after.nextIdentity = before.nextIdentity)
    (handles : after.handles = before.handles) : before.Carries mentioned after where
  adds := by
    rw [cache, nextIdentity]
    exact .of_stores id
  computes := by
    unfold ComputesTypes
    rw [cache]
    exact id
  knows _ known := .inl (cache ▸ known)
  keeps shared stored _ := by
    unfold StoresType
    rw [cache]
    exact stored
  handles := handles

/-- A request keeps all types, whether something refers to them or not. -/
theorem of_run (reachable : before.IsReachable) {depth : Nat}
    {outcome : Except QueryError (Shared query.Value)}
    (ran : Run.request (S := signature) rules depth query before = some (outcome, after)) :
    before.Carries query.references after ∧ before.KeepsTypes after := by
  have sound := reachable.sound
  have answered := (Context.meets_request sound trivial).2 _ _ ran
  have accounted := sound.accounted
  have keeps : before.KeepsTypes after := fun shared stored =>
    answered.changes.stores_of_returns accounted (Frontend.returns_composite shared.value) stored
  refine ⟨⟨answered.changes.adds accounted, ?_, ?_, fun shared stored _ => keeps shared stored,
    answered.handles⟩, keeps⟩
  · intro computes type
    rw [answered.cache.input?]
    exact computes type
  · intro other known
    refine (answered.changes.requested accounted known).imp_right ?_
    rintro ⟨path, requested, suffix⟩
    obtain rfl | none := requested
    · cases suffix.eq_of_length rfl
      exact List.Subset.refl _
    · rw [show other.references = [] from none]
      exact List.nil_subset _

theorem of_request (reachable : before.IsReachable)
    {outcome : Except QueryError (Shared query.Value)}
    (requested : before.request query = (outcome, after)) :
    before.Carries query.references after ∧ before.KeepsTypes after := by
  obtain ran | ⟨-, rfl⟩ := run_of_request requested
  · exact of_run reachable ran
  · exact ⟨.refl _ after, fun _ => id⟩

theorem collectGarbage (reachable : session.IsReachable) :
    session.Carries [] session.collectGarbage.2 where
  adds := .of_stores Context.stores_of_collectGarbage
  computes computes type := by
    have same := (Context.accounted_collectGarbage reachable.sound.accounted).2
    exact (congrFun same _).trans (computes type)
  knows _ known := .inl (Context.knows_of_collectGarbage known)
  keeps shared stored refers := Context.stores_collectGarbage stored refers
  handles := rfl

theorem collected (reachable : session.IsReachable) :
    session.Carries [] (Context.collected (S := signature) rules session) := by
  unfold Context.collected
  split
  · exact collectGarbage reachable
  · exact .refl _ session

theorem advance (reachable : session.IsReachable) : session.Carries [] session.advance :=
  have carries := collected reachable
  ⟨carries.adds, carries.computes, carries.knows, carries.keeps, carries.handles⟩

theorem keepsTypes_storeInput (sound : Cache.WellFormed (S := signature) session.cache)
    (value : query.Value) (other : ∀ type, query ≠ .composite type) :
    session.KeepsTypes (Context.storeInput (S := signature) session query value) :=
  fun _ stored => Context.stores_storeInput_ne (S := signature) sound (other _).symm value stored

theorem storeInput (sound : Cache.WellFormed (S := signature) session.cache) (value : query.Value)
    (other : ∀ type, query ≠ .composite type) :
    session.Carries [] (Context.storeInput (S := signature) session query value) where
  adds := Context.adds_storeInput (S := signature) sound value
  computes computes type := by
    obtain ⟨slot, entry, sets, -⟩ :=
      Context.sets_storeInput (S := signature) session sound query value
    exact (sets.input?_ne sound (other type).symm).trans (computes type)
  knows third known := by
    obtain known | rfl := Context.knows_of_storeInput (S := signature) sound known
    · exact .inl known
    · refine .inr ?_
      cases third with
      | composite type => exact absurd rfl (other type)
      | _ => exact List.nil_subset _
  keeps shared stored _ := keepsTypes_storeInput sound value other shared stored
  handles := rfl

theorem set (reachable : session.IsReachable) (value : query.Value)
    (other : ∀ type, query ≠ .composite type) :
    session.Carries [] (session.set query value).2 := by
  have wellFormed : Cache.WellFormed (S := signature) session.advance.cache :=
    reachable.sound.collected.1.accounted.wellFormed
  have stores : session.Carries [] (Context.storeInput (S := signature) session.advance query value) :=
    (advance reachable).trans (storeInput wellFormed value other)
      (keepsTypes_storeInput wellFormed value other)
  unfold Session.set Context.setInput
  cases Context.unchangedInput? (S := signature) rules session query value with
  | some revision => exact .refl _ session
  | none => exact stores

end Carries

/-- A request leads on, unless the depth ran out and nothing happened. -/
theorem IsReachable.request (reachable : before.IsReachable) {query : Query}
    {outcome : Except QueryError (Shared query.Value)}
    (requested : before.request query = (outcome, after)) :
    after.IsReachable ∧ ∀ shared, outcome = .ok shared →
      Cache.Stores (S := signature) after.cache query shared := by
  obtain ran | ⟨rfl, rfl⟩ := run_of_request requested
  · have answered := (Context.meets_request reachable.sound trivial).2 _ _ ran
    refine ⟨reachable.step (.request ran), fun shared ended => ?_⟩
    obtain ⟨slot, entry, -, here, value, -⟩ := answered.ok shared ended
    exact ⟨slot, entry, here, value⟩
  · exact ⟨reachable, nofun⟩

/-- A composite type is requested after the linkage of its declaration. -/
theorem IsReachable.composite (reachable : before.IsReachable) (computes : before.ComputesTypes)
    {kind : CompositeKind} {declaration : DeclarationKey} {name : Name} {generic : Option TypeId}
    {substitutions : Substitutions} {outcome : Except QueryError (Shared Composite)}
    (requested : before.composite kind declaration name generic substitutions = (outcome, after)) :
    before.Carries (generic.toList ++ substitutions.bindings.map (·.2)) after ∧
      after.IsReachable ∧ ∀ shared, outcome = .ok shared → after.StoresType shared := by
  unfold Session.composite at requested
  split at requested
  · rename_i error middle linkage
    cases requested
    obtain ⟨carries, -⟩ := Carries.of_request reachable linkage
    exact ⟨carries.mono (List.nil_subset _), (reachable.request linkage).1, nofun⟩
  · rename_i value middle linkage
    obtain ⟨carries, -⟩ := Carries.of_request reachable linkage
    obtain ⟨reachable, -⟩ := reachable.request linkage
    obtain ⟨carries', keeps⟩ := Carries.of_request reachable requested
    have carries := (carries.mono (List.nil_subset _)).trans carries' keeps
    obtain ⟨reachable, stored⟩ := reachable.request requested
    refine ⟨carries, reachable, fun shared ended => ?_⟩
    have stored := stored shared ended
    have same := reachable.value_eq (carries.computes computes) stored
    unfold StoresType
    rw [same]
    exact stored

end Session

end IncrementalFrontend
