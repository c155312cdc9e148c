import IncrementalFrontend.Proofs.Incremental.Collecting
import IncrementalFrontend.Proofs.Types.Canonical

/-!
What sharing between memos keeps. A collection counts a value as held also if only a cached query
mentions it, and decides so before it takes anything. One collection therefore suffices exactly if
no stale memo is held in this way alone; a template that only its own instantiation mentions
outlasts the collection that takes the instantiation.
-/
namespace IncrementalFrontend

variable {S : Signature} {rules : Rules S} {drift : S.World → S.World → Prop}

namespace Context

variable {context : Context S} {slot place : Nat} {identity : Nat} {query : S.Query}
  {entry : Entry S query}

/-- The value with the identity is in reach of a caller, who holds it or a value in whose query it
is mentioned. -/
inductive InReach (rules : Rules S) (context : Context S) : Nat → Prop
  | held {identity : Nat} : identity ∈ context.handles → InReach rules context identity
  | mentioned {query : S.Query} {shared : Shared (S.Value query)} {identity : Nat} :
      context.cache.Stores query shared → InReach rules context shared.identity →
      identity ∈ rules.references query → InReach rules context identity

def IsWanted (rules : Rules S) (context : Context S) (slot : Nat) : Prop :=
  ∃ holder query entry shared, context.cache.memo? holder = some ⟨query, entry⟩ ∧
    entry.value = some shared ∧ context.InReach rules shared.identity ∧
    context.cache.Needs holder slot

def IsTidy (rules : Rules S) (context : Context S) : Prop :=
  ∀ slot query entry, context.cache.memo? slot = some ⟨query, entry⟩ → entry.origin = .derived →
    entry.IsCurrent context.revision ∨ context.IsWanted rules slot

/-- No stale memo is held by cached queries alone. -/
def HoldsOnlyWanted (rules : Rules S) (context : Context S) : Prop :=
  ∀ slot query entry, context.cache.memo? slot = some ⟨query, entry⟩ → entry.origin = .derived →
    ¬ entry.IsCurrent context.revision → context.IsHeld rules slot → context.IsWanted rules slot

theorem InReach.refers (inReach : context.InReach rules identity) :
    context.Refers rules identity := by
  cases inReach with
  | held member => exact .inl member
  | mentioned stored _ mentioned => exact .inr ⟨_, stored.knows, mentioned⟩

theorem IsWanted.isPinned (wanted : context.IsWanted rules slot) :
    context.IsPinned rules slot := by
  obtain ⟨holder, query, entry, shared, here, value, inReach, needs⟩ := wanted
  exact ⟨holder, ⟨query, entry, shared, here, value, inReach.refers⟩, needs⟩

theorem IsWanted.needs (wanted : context.IsWanted rules place)
    (needs : context.cache.Needs place slot) : context.IsWanted rules slot := by
  obtain ⟨holder, query, entry, shared, here, value, inReach, before⟩ := wanted
  exact ⟨holder, query, entry, shared, here, value, inReach, before.trans needs⟩

theorem IsPinned.memo?_collectGarbage (pinned : context.IsPinned rules slot) :
    (context.collectGarbage rules).2.cache.memo? slot = context.cache.memo? slot := by
  refine Cache.memo?_evict_of_not_mem fun goes => ?_
  obtain ⟨_, _, -, -, -, unpinned⟩ := mem_collectable_iff.mp goes
  exact unpinned pinned

/-- What is in reach stays in reach, and nothing else comes into reach. -/
theorem inReach_collectGarbage_iff : (context.collectGarbage rules).2.InReach rules identity ↔
    context.InReach rules identity := by
  constructor
  · intro inReach
    induction inReach with
    | held member => exact .held member
    | mentioned stored _ mentioned ih =>
      exact .mentioned (stores_of_collectGarbage stored) ih mentioned
  · intro inReach
    induction inReach with
    | held member => exact .held member
    | mentioned stored inReach mentioned ih =>
      exact .mentioned (stores_collectGarbage stored inReach.refers) ih mentioned

theorem needs_of_collectGarbage
    (needs : (context.collectGarbage rules).2.cache.Needs place slot) :
    context.cache.Needs place slot := by
  refine Relation.ReflTransGen.mono (fun reader dependency read => ?_) _ _ needs
  obtain ⟨⟨query, entry⟩, here⟩ := Option.isSome_iff_exists.mp
    (Cache.mem_liveSlots.mp (Cache.mem_liveSlots_of_reads read))
  rw [Cache.dependencies_eq here] at read
  rw [Cache.dependencies_eq (Cache.memo?_of_evict here).2]
  exact read

/-- A chain that starts at a pinned memo stays whole. -/
theorem IsPinned.needs_collectGarbage (pinned : context.IsPinned rules place)
    (needs : context.cache.Needs place slot) :
    (context.collectGarbage rules).2.cache.Needs place slot := by
  induction needs with
  | refl => exact .refl
  | @tail reader dependency before read ih =>
    obtain ⟨holder, held, first⟩ := pinned
    have stays : context.IsPinned rules reader := ⟨holder, held, first.trans before⟩
    refine ih.tail ?_
    unfold Cache.dependencies
    rw [stays.memo?_collectGarbage]
    exact read

theorem isWanted_collectGarbage_iff : (context.collectGarbage rules).2.IsWanted rules slot ↔
    context.IsWanted rules slot := by
  constructor
  · rintro ⟨holder, query, entry, shared, here, value, inReach, needs⟩
    exact ⟨holder, query, entry, shared, (Cache.memo?_of_evict here).2, value,
      inReach_collectGarbage_iff.mp inReach, needs_of_collectGarbage needs⟩
  · rintro ⟨holder, query, entry, shared, here, value, inReach, needs⟩
    have pinned : context.IsPinned rules holder :=
      ⟨holder, ⟨query, entry, shared, here, value, inReach.refers⟩, .refl⟩
    exact ⟨holder, query, entry, shared, pinned.memo?_collectGarbage.trans here, value,
      inReach_collectGarbage_iff.mpr inReach, pinned.needs_collectGarbage needs⟩

/-- A memo that is not stale needs no stale one. -/
theorem not_stale_of_needs {account : Account rules}
    (accounted : context.cache.Accounted account context.revision)
    (fresh : ∀ query entry, context.cache.memo? place = some ⟨query, entry⟩ →
      entry.origin = .derived → entry.IsCurrent context.revision)
    (needs : context.cache.Needs place slot) :
    ∀ query entry, context.cache.memo? slot = some ⟨query, entry⟩ →
      entry.origin = .derived → entry.IsCurrent context.revision := by
  induction needs with
  | refl => exact fresh
  | @tail reader dependency _ read ih =>
    intro other known there _
    obtain ⟨⟨query, entry⟩, here⟩ := Option.isSome_iff_exists.mp
      (Cache.mem_liveSlots.mp (Cache.mem_liveSlots_of_reads read))
    rw [Cache.dependencies_eq here] at read
    cases origin : entry.origin with
    | input =>
      rw [(accounted.ofInput here origin).2.1] at read
      cases read
    | derived =>
      exact accounted.dependency_isCurrent here (ih query entry here origin).2 read there

/-- A stale memo that stayed is needed by a held one, which is stale itself. -/
theorem HoldsOnlyWanted.isTidy_collectGarbage {account : Account rules}
    (onlyWanted : context.HoldsOnlyWanted rules)
    (accounted : context.cache.Accounted account context.revision) :
    (context.collectGarbage rules).2.IsTidy rules := by
  intro slot query entry here derived
  by_cases now : entry.IsCurrent context.revision
  · exact .inl now
  right
  obtain ⟨stays, before⟩ := Cache.memo?_of_evict here
  have pinned : context.IsPinned rules slot := by
    by_contra unpinned
    exact stays (mem_collectable_iff.mpr ⟨query, entry, before, derived, now, unpinned⟩)
  obtain ⟨holder, held, needs⟩ := pinned
  rw [isWanted_collectGarbage_iff]
  by_contra unwanted
  refine now (not_stale_of_needs accounted (fun other known there derived => ?_) needs query entry
    before derived)
  by_contra old
  exact unwanted ((onlyWanted holder other known there derived old held).needs needs)

/-- A held memo stays, so if all is tidy afterwards, it is wanted or up to date. -/
theorem IsTidy.holdsOnlyWanted (tidy : (context.collectGarbage rules).2.IsTidy rules) :
    context.HoldsOnlyWanted rules := by
  intro slot query entry here derived old held
  have pinned : context.IsPinned rules slot := ⟨slot, held, .refl⟩
  have there := pinned.memo?_collectGarbage.trans here
  exact isWanted_collectGarbage_iff.mp ((tidy slot query entry there derived).resolve_left old)

theorem IsTidy.collectable_eq_nil (tidy : context.IsTidy rules) :
    context.collectable rules = [] := by
  refine List.eq_nil_iff_forall_not_mem.mpr fun slot goes => ?_
  obtain ⟨query, entry, here, derived, old, unpinned⟩ := mem_collectable_iff.mp goes
  exact unpinned ((tidy slot query entry here derived).resolve_left old).isPinned

/-- One collection is complete exactly if no stale memo is held by cached queries alone, and then
another one takes nothing. -/
theorem Reachable.isTidy_collectGarbage_iff (reachable : context.Reachable rules drift) :
    ((context.collectGarbage rules).2.IsTidy rules ↔ context.HoldsOnlyWanted rules) ∧
      (context.HoldsOnlyWanted rules →
        ((context.collectGarbage rules).2.collectGarbage rules).1 = 0) := by
  have accounted := reachable.sound_plain.accounted
  refine ⟨⟨IsTidy.holdsOnlyWanted, fun onlyWanted => onlyWanted.isTidy_collectGarbage accounted⟩,
    fun onlyWanted => ?_⟩
  have tidy := onlyWanted.isTidy_collectGarbage accounted
  exact List.length_eq_zero_iff.mpr tidy.collectable_eq_nil

end Context

namespace Workbench.Boxes

def retired : Workbench :=
  let bench := kept.setSession (kept.session.request (.scripted .number "n")).2
  bench.setSession bench.session.advance

theorem isReached_retired : retired.IsReached := by
  obtain ⟨scripts, collects, limit, leads⟩ := isReached_kept
  have all : kept.HoldsAll (Frontend.Query.scripted .number "n").references := List.forall_mem_nil _
  exact ⟨scripts, collects, limit, (leads.tail (.request _ _ all)).tail (.advance _)⟩

/-- The boxes of boxes are held, and mention the boxes; nothing else is mentioned. -/
theorem inReach_retired {identity : Nat}
    (refers : Context.Refers Frontend.rules retired.session identity) :
    Context.InReach Frontend.rules retired.session identity := by
  obtain held | ⟨query, ⟨slot, here⟩, mentioned⟩ := refers
  · exact .held held
  have stored : retired.session.StoresType ⟨1, nested⟩ :=
    isReached_retired.canonical.held ⟨1, nested⟩ ⟨"nested", .head _⟩
  have isHeld : 1 ∈ retired.session.handles := by decide +kernel
  have size : Array.size retired.session.cache.slots = 3 := by decide +kernel
  have cached : [0, 1, 2].map (Cache.query? (S := Frontend.signature) retired.session.cache) =
      [some (.composite box), some (.composite nested), some (.scripted .number "n")] := by
    decide +kernel
  simp only [List.map_cons, List.map_nil, List.cons.injEq, and_true] at cached
  obtain ⟨first, second, third⟩ := cached
  obtain ⟨entry, atSlot⟩ := Cache.memo?_of_query? here
  have inside := Cache.lt_size atSlot
  rw [size] at inside
  obtain rfl | rfl | rfl : slot = 0 ∨ slot = 1 ∨ slot = 2 := by omega
  · cases first.symm.trans here
    cases mentioned
  · cases second.symm.trans here
    exact .mentioned stored (.held isHeld) mentioned
  · cases third.symm.trans here
    cases mentioned

/-- The number goes, and the boxes stay. -/
theorem isTidy_retired :
    let after := retired.session.collectGarbage.2
    retired.session.collectGarbage.1 = 1 ∧ Context.IsTidy Frontend.rules after ∧
      after.collectGarbage.1 = 0 := by
  have reachable := isReached_retired.canonical.session.reachable
  have onlyWanted : Context.HoldsOnlyWanted Frontend.rules retired.session := by
    rintro slot _ _ - - - ⟨query, entry, shared, here, value, refers⟩
    exact ⟨slot, query, entry, shared, here, value, inReach_retired refers, .refl⟩
  obtain ⟨complete, again⟩ := Context.Reachable.isTidy_collectGarbage_iff reachable
  exact ⟨by decide +kernel, complete.mpr onlyWanted, again onlyWanted⟩

def abandoned : Workbench :=
  let bench := (kept.release "nested").2
  bench.setSession bench.session.advance

theorem isReached_abandoned : abandoned.IsReached := by
  obtain ⟨scripts, collects, limit, leads⟩ := isReached_kept
  exact ⟨scripts, collects, limit, (leads.tail (.release _ "nested")).tail (.advance _)⟩

/-- The boxes outlast the collection that takes the boxes of boxes; a second one takes them. -/
theorem box_outlasts_collection :
    let after := abandoned.session.collectGarbage.2
    abandoned.IsReached ∧ abandoned.session.handles = [] ∧
      abandoned.session.collectGarbage.1 = 1 ∧ ¬ Context.IsTidy Frontend.rules after ∧
      after.collectGarbage.1 = 1 := by
  have again : abandoned.session.collectGarbage.2.collectGarbage.1 = 1 := by decide +kernel
  refine ⟨isReached_abandoned, by decide +kernel, by decide +kernel, fun tidy => ?_, again⟩
  have none : abandoned.session.collectGarbage.2.collectGarbage.1 = 0 :=
    List.length_eq_zero_iff.mpr tidy.collectable_eq_nil
  cases none.symm.trans again

end Workbench.Boxes

end IncrementalFrontend
