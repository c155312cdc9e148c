import Mathlib.Logic.Relation
import IncrementalFrontend.Frontend.Workbench
import IncrementalFrontend.Proofs.Incremental.FreshSession
import IncrementalFrontend.Proofs.Types.Carries

/-!
Composite types are canonical. Whatever a workbench does, two types that are alive at once are the
same instance exactly if their descriptions are equal, so types can be compared by identity.
-/
namespace IncrementalFrontend

open Frontend (Query World rules signature)

namespace Session

variable {session before after : Session} {mentioned : List TypeId}

structure Canonical (session : Session) : Prop where
  reachable : session.IsReachable
  computes : session.ComputesTypes
  identified : Cache.Identified (S := signature) session.cache session.nextIdentity
  mentioned : ∀ query, Cache.Knows (S := signature) session.cache query →
    ∀ type ∈ query.references, ∃ value, session.StoresType ⟨type, value⟩

theorem Canonical.carry (canonical : before.Canonical) (carries : before.Carries mentioned after)
    (reachable : after.IsReachable)
    (held : ∀ type ∈ mentioned,
      type ∈ before.handles ∧ ∃ value, before.StoresType ⟨type, value⟩) : after.Canonical where
  reachable := reachable
  computes := carries.computes canonical.computes
  identified := carries.adds.identified canonical.identified
  mentioned query known type inside := by
    obtain known | within := carries.knows query known
    · obtain ⟨value, stored⟩ := canonical.mentioned query known type inside
      exact ⟨value, carries.keeps _ stored (.inr ⟨query, known, inside⟩)⟩
    · obtain ⟨isHeld, value, stored⟩ := held type (within inside)
      exact ⟨value, carries.keeps _ stored (.inl isHeld)⟩

/-- Stored types are the same exactly if their descriptions are equal. -/
theorem Canonical.identity_eq_iff (canonical : session.Canonical) {a b : Shared Composite}
    (first : session.StoresType a) (second : session.StoresType b) :
    a.identity = b.identity ↔ a.value = b.value := by
  constructor
  · intro same
    have equal := congrArg Sigma.fst (canonical.identified.unique first second same)
    exact Query.composite.inj equal
  · intro same
    unfold StoresType at first
    rw [same] at first
    exact congrArg Shared.identity
      (first.unique canonical.reachable.sound.accounted.wellFormed second)

end Session

namespace Workbench

variable {bench after : Workbench} {shared : Shared Composite}

def HoldsType (bench : Workbench) (shared : Shared Composite) : Prop :=
  ∃ label, (label, Handle.type shared) ∈ bench.handles

def HoldsAll (bench : Workbench) (types : List TypeId) : Prop :=
  ∀ type ∈ types, ∃ shared, bench.HoldsType shared ∧ shared.identity = type

/-- What can be done with a workbench. Types are mentioned by handles; a type is held when it was
requested, or as a copy of one that is held or stored. No type is set as an input. -/
inductive Step : Workbench → Workbench → Prop
  | composite (bench : Workbench) (label : String) {kind : CompositeKind}
      {declaration : DeclarationKey} {name : Name} {generic : Option TypeId}
      {substitutions : Substitutions} {shared : Shared Composite} {session : Session} :
      bench.HoldsAll (generic.toList ++ substitutions.bindings.map (·.2)) →
      bench.session.composite kind declaration name generic substitutions = (.ok shared, session) →
      Step bench ((bench.setSession session).hold label (.type shared))
  | compositeFailed (bench : Workbench) {kind : CompositeKind} {declaration : DeclarationKey}
      {name : Name} {generic : Option TypeId} {substitutions : Substitutions} {error : QueryError}
      {session : Session} :
      bench.HoldsAll (generic.toList ++ substitutions.bindings.map (·.2)) →
      bench.session.composite kind declaration name generic substitutions = (.error error, session) →
      Step bench (bench.setSession session)
  | request (bench : Workbench) (query : Query) : bench.HoldsAll query.references →
      Step bench (bench.setSession (bench.session.request query).2)
  | hold (bench : Workbench) (label : String) (handle : Handle) :
      (∀ shared, handle = .type shared →
        bench.HoldsType shared ∨ bench.session.StoresType shared) →
      Step bench (bench.hold label handle)
  | release (bench : Workbench) (label : String) : Step bench (bench.release label).2
  | set (bench : Workbench) (query : Query) (value : query.Value) :
      (∀ type, query ≠ .composite type) → Step bench (bench.setSession (bench.session.set query value).2)
  | advance (bench : Workbench) : Step bench (bench.setSession bench.session.advance)
  | collectGarbage (bench : Workbench) : Step bench (bench.setSession bench.session.collectGarbage.2)
  | setDisk (bench : Workbench) (disk : Disk) : Step bench (bench.setDisk disk)
  | world (bench : Workbench) (change : World → World) :
      Step bench (bench.setSession (bench.session.updateWorld change))

def Leads : Workbench → Workbench → Prop :=
  Relation.ReflTransGen Step

def IsReached (bench : Workbench) : Prop :=
  ∃ scripts collects limit, Leads (.start scripts collects limit) bench

def Made (bench : Workbench) (shared : Shared Composite) : Prop :=
  ∃ (earlier : Workbench) (type : Composite), earlier.IsReached ∧ earlier.Leads bench ∧
    Cache.Stores (S := signature) earlier.session.cache (.composite type) shared

/-- Types that are alive: a caller holds them, or they are inside a cached query or value. -/
inductive IsAlive (bench : Workbench) : Shared Composite → Prop
  | held {shared : Shared Composite} : bench.HoldsType shared → IsAlive bench shared
  | stored {type : Composite} {shared : Shared Composite} :
      Cache.Stores (S := signature) bench.session.cache (.composite type) shared →
      IsAlive bench shared
  | inQuery {query : Query} {shared : Shared Composite} :
      Cache.Knows (S := signature) bench.session.cache query →
      shared.identity ∈ query.references → bench.Made shared → IsAlive bench shared
  | inValue {type : Composite} {outer shared : Shared Composite} :
      Cache.Stores (S := signature) bench.session.cache (.composite type) outer →
      shared.identity ∈ outer.value.mentioned → bench.Made shared → IsAlive bench shared

structure Canonical (bench : Workbench) : Prop where
  session : bench.session.Canonical
  handles : bench.session.handles = bench.handles.map (·.2.identity)
  held : ∀ shared, bench.HoldsType shared → bench.session.StoresType shared

def Adds (bench after : Workbench) : Prop :=
  Cache.Adds (S := signature) bench.session.cache bench.session.nextIdentity after.session.cache
    after.session.nextIdentity

namespace Canonical

theorem mem_handles (canonical : bench.Canonical) {shared : Shared Composite}
    (held : bench.HoldsType shared) : shared.identity ∈ bench.session.handles := by
  obtain ⟨label, member⟩ := held
  rw [canonical.handles]
  exact List.mem_map.mpr ⟨_, member, rfl⟩

theorem holdsAll (canonical : bench.Canonical) {types : List TypeId} (all : bench.HoldsAll types) :
    ∀ type ∈ types,
      type ∈ bench.session.handles ∧ ∃ value, bench.session.StoresType ⟨type, value⟩ := by
  rintro _ member
  obtain ⟨shared, held, rfl⟩ := all _ member
  exact ⟨canonical.mem_handles held, shared.value, canonical.held shared held⟩

/-- The session takes a step. -/
theorem setSession (canonical : bench.Canonical) {session : Session} {mentioned : List TypeId}
    (carries : bench.session.Carries mentioned session) (reachable : session.IsReachable)
    (all : bench.HoldsAll mentioned) : (bench.setSession session).Canonical where
  session := canonical.session.carry carries reachable (canonical.holdsAll all)
  handles := carries.handles.trans canonical.handles
  held shared held :=
    carries.keeps shared (canonical.held shared held) (.inl (canonical.mem_handles held))

/-- The session takes a step that mentions no types. -/
theorem advanceSession (canonical : bench.Canonical) {session : Session}
    (carries : bench.session.Carries [] session) (reachable : session.IsReachable) :
    (bench.setSession session).Canonical :=
  canonical.setSession carries reachable (List.forall_mem_nil _)

/-- Handles come and go. -/
theorem setHandles (canonical : bench.Canonical) {handles : List (String × Handle)}
    (stored : ∀ label shared, (label, Handle.type shared) ∈ handles →
      bench.session.StoresType shared) : (bench.setHandles handles).Canonical where
  session := ⟨canonical.session.reachable.step (.hold _ _), canonical.session.computes,
    canonical.session.identified, canonical.session.mentioned⟩
  handles := rfl
  held := fun shared ⟨label, member⟩ => stored label shared member

theorem hold (canonical : bench.Canonical) (label : String) {handle : Handle}
    (stored : ∀ shared, handle = .type shared → bench.session.StoresType shared) :
    (bench.hold label handle).Canonical := by
  refine canonical.setHandles fun other shared member => ?_
  obtain same | member := List.mem_cons.mp member
  · exact stored shared (Prod.mk.inj same).2.symm
  · exact canonical.held shared ⟨other, List.mem_of_mem_filter member⟩

/-- Whatever is done, types stay canonical, and new ones get new identities. -/
theorem step (canonical : bench.Canonical) (step : bench.Step after) :
    after.Canonical ∧ bench.Adds after := by
  have reachable := canonical.session.reachable
  cases step with
  | composite label all requested =>
    obtain ⟨carries, reachable, stored⟩ := reachable.composite canonical.session.computes requested
    refine ⟨(canonical.setSession carries reachable all).hold label ?_, carries.adds⟩
    rintro _ ⟨⟩
    exact stored _ rfl
  | compositeFailed all requested =>
    obtain ⟨carries, reachable, -⟩ := reachable.composite canonical.session.computes requested
    exact ⟨canonical.setSession carries reachable all, carries.adds⟩
  | request query all =>
    obtain ⟨carries, -⟩ := Session.Carries.of_request reachable rfl
    exact ⟨canonical.setSession carries (reachable.request rfl).1 all, carries.adds⟩
  | hold label handle copies =>
    refine ⟨canonical.hold label fun shared same => ?_, .of_stores id⟩
    exact (copies shared same).elim (canonical.held shared) id
  | release label =>
    refine ⟨canonical.setHandles fun other shared member => ?_, .of_stores id⟩
    exact canonical.held shared ⟨other, List.mem_of_mem_filter member⟩
  | set query value other =>
    have carries := Session.Carries.set reachable value other
    refine ⟨canonical.advanceSession carries ?_, carries.adds⟩
    exact Context.Reachable.setInput (S := signature) reachable (fun _ => trivial) query value
  | advance =>
    have carries := Session.Carries.advance reachable
    exact ⟨canonical.advanceSession carries (reachable.step (.advance _ _)), carries.adds⟩
  | collectGarbage =>
    have carries := Session.Carries.collectGarbage reachable
    exact ⟨canonical.advanceSession carries (reachable.step (.collectGarbage _)), carries.adds⟩
  | setDisk disk =>
    have carries : bench.session.Carries [] (bench.setDisk disk).session := .of_cache rfl rfl rfl
    obtain ⟨session, handles, held⟩ :=
      canonical.advanceSession carries (reachable.step (.drift _ _ trivial))
    exact ⟨⟨session, handles, held⟩, carries.adds⟩
  | world change =>
    have carries : bench.session.Carries [] (bench.session.updateWorld change) :=
      .of_cache rfl rfl rfl
    exact ⟨canonical.advanceSession carries (reachable.step (.drift _ _ trivial)), carries.adds⟩

end Canonical

theorem canonical_start (scripts : List ((ScriptKind × String) × Script)) (collects : Bool)
    (limit : Nat) : (start scripts collects limit).Canonical := by
  have empty {query : Query} {shared : Shared query.Value} :
      ¬ Cache.Stores (S := signature) .empty query shared := by
    rintro ⟨slot, entry, here, -⟩
    rw [Cache.memo?_empty] at here
    cases here
  refine ⟨⟨⟨_, collects, .refl⟩, fun type => rfl, ⟨fun stored => absurd stored empty,
    fun stored => absurd stored empty⟩, ?_⟩, rfl, nofun⟩
  rintro query ⟨slot, here⟩
  rw [Cache.query?] at here
  cases (Cache.memo?_empty (S := signature) slot) ▸ here

theorem IsReached.canonical (reached : bench.IsReached) : bench.Canonical := by
  obtain ⟨scripts, collects, limit, leads⟩ := reached
  induction leads with
  | refl => exact canonical_start scripts collects limit
  | tail _ step ih => exact (ih.step step).1

theorem Canonical.adds (canonical : bench.Canonical) (leads : bench.Leads after) :
    bench.Adds after := by
  have both : after.Canonical ∧ bench.Adds after := by
    induction leads with
    | refl => exact ⟨canonical, .of_stores id⟩
    | tail _ step ih =>
      obtain ⟨canonical, adds⟩ := ih
      obtain ⟨canonical, adds'⟩ := canonical.step step
      exact ⟨canonical, adds.trans adds'⟩
  exact both.2

/-- A type that was made on the way, and whose identity is in use, is still stored. -/
theorem Made.stored (made : bench.Made shared) {value : Composite}
    (stored : bench.session.StoresType ⟨shared.identity, value⟩) :
    bench.session.StoresType shared := by
  obtain ⟨earlier, type, reached, leads, before⟩ := made
  have first := reached.canonical.session.identified
  have older := (reached.canonical.adds leads).stores stored
  have isOlder := older.resolve_right (Nat.not_le.mpr (first.below before))
  have equal := first.unique isOlder before rfl
  obtain rfl := reached.canonical.session.reachable.value_eq
    reached.canonical.session.computes before
  have same : value = shared.value := Query.composite.inj (congrArg Sigma.fst equal)
  rw [same] at stored
  exact stored

theorem IsAlive.storesType (alive : bench.IsAlive shared) (canonical : bench.Canonical) :
    bench.session.StoresType shared := by
  have value_eq {type : Composite} {outer : Shared Composite}
      (stored : Cache.Stores (S := signature) bench.session.cache (.composite type) outer) :
      outer.value = type :=
    canonical.session.reachable.value_eq canonical.session.computes stored
  cases alive with
  | held held => exact canonical.held shared held
  | stored stored =>
    cases value_eq stored
    exact stored
  | inQuery known mentioned made =>
    obtain ⟨value, stored⟩ := canonical.session.mentioned _ known _ mentioned
    exact made.stored stored
  | inValue stored mentioned made =>
    cases value_eq stored
    obtain ⟨value, stored⟩ := canonical.session.mentioned _ stored.knows _ mentioned
    exact made.stored stored

/-- Types that are alive at once are the same exactly if their descriptions are equal, and what is
mentioned inside the cache is alive. -/
theorem IsReached.types_canonical (reached : bench.IsReached) :
    (∀ a b, bench.IsAlive a → bench.IsAlive b → (a.identity = b.identity ↔ a.value = b.value)) ∧
      (∀ query, Cache.Knows (S := signature) bench.session.cache query →
        ∀ type ∈ query.references, ∃ shared, bench.IsAlive shared ∧ shared.identity = type) := by
  have canonical := reached.canonical
  constructor
  · intro a b first second
    exact canonical.session.identity_eq_iff (first.storesType canonical) (second.storesType canonical)
  · intro query known type inside
    obtain ⟨value, stored⟩ := canonical.session.mentioned query known type inside
    exact ⟨⟨type, value⟩, .stored stored, rfl⟩

/-- A type that was requested directly can be held. -/
theorem IsReached.holdRequested (reached : bench.IsReached) {type : Composite} {identity : TypeId}
    (all : bench.HoldsAll type.mentioned)
    (requested : (bench.session.request (.composite type)).1.toOption.map Shared.identity =
      some identity) (label : String) :
    ((bench.setSession (bench.session.request (.composite type)).2).hold label
      (.type ⟨identity, type⟩)).IsReached := by
  have canonical := reached.canonical
  obtain ⟨scripts, collects, limit, leads⟩ := reached
  refine ⟨scripts, collects, limit, (leads.tail (.request _ (.composite type) all)).tail
    (.hold _ label _ ?_)⟩
  rintro _ ⟨⟩
  right
  obtain ⟨carries, -⟩ := Session.Carries.of_request canonical.session.reachable rfl
  obtain ⟨reachable, stored⟩ := canonical.session.reachable.request rfl
  cases ended : (bench.session.request (.composite type)).1 with
  | error error =>
    rw [ended] at requested
    cases requested
  | ok shared =>
    rw [ended] at requested
    obtain rfl : shared.identity = identity := Option.some.inj requested
    have stored := stored shared ended
    have same := reachable.value_eq (carries.computes canonical.session.computes) stored
    have whole : (⟨shared.identity, type⟩ : Shared Composite) = shared :=
      congrArg (Shared.mk shared.identity) same.symm
    rw [whole]
    unfold Session.StoresType
    rw [same]
    exact stored

namespace Boxes

def declaration : DeclarationKey :=
  ⟨⟨.empty, .empty⟩, 0⟩

def box : Composite :=
  ⟨.record, declaration, .empty, none, .empty, .internal⟩

def nested : Composite :=
  ⟨.record, declaration, .empty, some 0, .ofList [(.empty, 0)], .internal⟩

def boxed : Workbench :=
  let bench := start [] false 0
  (bench.setSession (bench.session.request (.composite box)).2).hold "box" (.type ⟨0, box⟩)

def loose : Composite :=
  { box with declaration := ⟨⟨.empty, .empty⟩, 1⟩ }

def kept : Workbench :=
  let bench := (boxed.setSession (boxed.session.request (.composite nested)).2).hold "nested"
    (.type ⟨1, nested⟩)
  let bench := bench.setSession (bench.session.request (.composite loose)).2
  let bench := (bench.release "box").2
  let bench := bench.setSession bench.session.advance
  bench.setSession bench.session.collectGarbage.2

theorem isReached_boxed : boxed.IsReached := by
  have fresh : (start [] false 0).IsReached := ⟨[], false, 0, .refl⟩
  have all : (start [] false 0).HoldsAll box.mentioned := List.forall_mem_nil _
  exact fresh.holdRequested all (by decide +kernel) "box"

theorem isReached_kept : kept.IsReached := by
  have held : boxed.HoldsType ⟨0, box⟩ := ⟨"box", .head _⟩
  have all : boxed.HoldsAll nested.mentioned := by
    have mentions : nested.mentioned = [0, 0] := by decide
    rw [mentions]
    intro type member
    obtain rfl : type = 0 := by simpa using member
    exact ⟨_, held, rfl⟩
  obtain ⟨scripts, collects, limit, leads⟩ :=
    isReached_boxed.holdRequested all (by decide +kernel : _ = some 1) "nested"
  exact ⟨scripts, collects, limit, (((leads.tail (.request _ (.composite loose)
    (List.forall_mem_nil _))).tail (.release _ "box")).tail (.advance _)).tail (.collectGarbage _)⟩

/-- A collection takes a record that is not needed and spares the boxes, which are not needed either but
mentioned. -/
theorem types_canonical_kept :
    (Cache.find? (S := signature) kept.session.cache (.composite loose)).isNone ∧
      (Cache.find? (S := signature) kept.session.cache (.composite box)).any
        (·.2.verifiedAt < kept.session.revision) ∧
      ∃ shared, kept.IsAlive shared ∧ shared.identity = 0 ∧ shared.value ≠ nested := by
  refine ⟨by decide +kernel, by decide +kernel, ?_⟩
  have alive : kept.IsAlive ⟨1, nested⟩ := .held ⟨"nested", .head _⟩
  obtain ⟨identity_eq_iff, mentioned⟩ := IsReached.types_canonical isReached_kept
  have stored := alive.storesType isReached_kept.canonical
  obtain ⟨shared, spared, first⟩ := mentioned (.composite nested) stored.knows 0 (by decide)
  refine ⟨shared, spared, first, fun same => ?_⟩
  have equal := (identity_eq_iff shared ⟨1, nested⟩ spared alive).mpr same
  rw [first] at equal
  cases equal

end Boxes

end Workbench

end IncrementalFrontend
