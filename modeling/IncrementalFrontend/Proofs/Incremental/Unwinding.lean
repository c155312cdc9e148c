import IncrementalFrontend.Proofs.Incremental.Failing

/-!
The queries in flight. Whatever queries do with errors, no slot is in flight twice, each query notes
in its own frame what it reads and reports, and each request leaves the frames as it found them.
-/
namespace IncrementalFrontend

variable {S : Signature} {rules : Rules S}

namespace Run

/-- Contexts that a request goes through itself: where it begins and ends, where it has checked
dependencies of a memo, and where a computation starts and how far it has come. -/
inductive Passes (rules : Rules S) : Nat → S.Query → Context S → Context S → Prop
  | begins {depth : Nat} {query : S.Query} {context : Context S} :
      Passes rules depth query context context
  | checks {depth slot : Nat} {query : S.Query} {context place : Context S}
      {entry : Entry S query} {done rest : List Nat} {outcome : Except QueryError Bool} :
      HasOlder context query slot entry → rules.isVolatile query = false →
        context.cycle? rules slot = none → entry.dependencies = done ++ rest →
        areUnchanged (fetch rules depth) entry.verifiedAt done
          (context.pushFrame slot .validating) = some (outcome, place) →
        Passes rules (depth + 1) query context place
  | starts {depth slot : Nat} {query : S.Query} {context start : Context S} :
      Starts rules (fetch rules depth) query context slot start →
        Passes rules (depth + 1) query context start
  | computes {depth slot : Nat} {query : S.Query} {context start place : Context S}
      {rest : Computation S (S.Value query)} {readings : List (Reading S)}
      {reports : List Diagnostic} :
      Starts rules (fetch rules depth) query context slot start →
        start.cycle? rules slot = none →
        Proceeds rules (fetch rules depth) (rules.compute query) (start.pushFrame slot .computing)
          rest place readings reports →
        Passes rules (depth + 1) query context place
  | ends {depth : Nat} {query : S.Query} {context place : Context S}
      {outcome : Except QueryError (Nat × Shared (S.Value query))} :
      fetch rules depth query context = some (outcome, place) →
        Passes rules depth query context place

def Visits (rules : Rules S) (depth : Nat) (query : S.Query) (context place : Context S) : Prop :=
  ∃ inner other there, Involves rules depth query context inner other there ∧
    Passes rules inner other there place

end Run

namespace Context

structure IsSimple (context : Context S) : Prop where
  nodup : context.busy.Nodup
  live : ∀ slot ∈ context.busy, (context.cache.memo? slot).isSome

/-- The query in a slot is the innermost in flight, above those of an outer context. Its frame has
the slots of the queries whose values it read, in the order of the first reads, and its reports. -/
structure Attributes (outer : Context S) (query : S.Query) (slot : Nat)
    (readings : List (Reading S)) (reports : List Diagnostic) (context : Context S)
    (reads : List Nat) : Prop where
  active : context.active = ⟨slot, .computing, reads, reports⟩ :: outer.active
  query : context.cache.query? slot = some query
  reads : reads.map context.cache.query? = (Reading.firstQueries readings).map some
  sink : context.sink = outer.sink

variable {context place : Context S} {path : List S.Query} {account : Account rules}

theorem Sound.isSimple (sound : context.Sound account path) (distinct : path.Nodup) :
    context.IsSimple where
  nodup := by
    -- Slots are told apart by their queries, which make up the path.
    refine List.Nodup.of_map context.cache.query? ?_
    rw [sound.inFlight]
    exact distinct.map fun _ _ => Option.some.inj
  live slot member := by
    obtain ⟨query, entry, here, -⟩ := sound.waiting slot member
    rw [here]
    rfl

end Context

namespace Run

variable {depth slot : Nat} {path : List S.Query} {query other : S.Query}
  {context start there place : Context S} {readings : List (Reading S)}
  {reports : List Diagnostic}

/-- While a memo is checked, its frame is the innermost one. -/
theorem HasOlder.unwinds {entry : Entry S query} {done rest : List Nat}
    {outcome : Except QueryError Bool} (older : HasOlder context query slot entry)
    (sound : context.Sound (.plain rules) path) (steady : rules.isVolatile query = false)
    (fresh : context.cycle? rules slot = none) (split : entry.dependencies = done ++ rest)
    (ran : areUnchanged (fetch rules depth) entry.verifiedAt done
      (context.pushFrame slot .validating) = some (outcome, place)) :
    query ∉ path ∧ place.Sound (.plain rules) (query :: path) ∧
      place.active = .start slot .validating :: context.active ∧ place.sink = context.sink := by
  have here := Cache.memo?_of_find? older.found
  obtain ⟨shared, value⟩ := Option.isSome_iff_exists.mp older.value
  have unrepeated := sound.not_mem_of_cycle? (Cache.query?_eq here) fresh
  have initial := Checking.initial depth sound here older.derived older.stale
  obtain ⟨sound', grows, active, -⟩ :=
    (meets_areUnchanged (serves_fetch (.plain rules) depth) initial older.derived value steady
      (show entry.dependencies = [] ++ done ++ rest from split) trivial unrepeated
      fun _ _ _ => trivial).2 _ _ ran
  exact ⟨unrepeated, sound', active, grows.sink⟩

/-- Before a query is computed, no frame has changed. -/
theorem Starts.active_eq (starts : Starts rules (fetch rules depth) query context slot start)
    (sound : context.Sound (.plain rules) path) : start.active = context.active := by
  cases starts with
  | new | unset | volatile => rfl
  | @changed _ entry _ older steady fresh ran =>
    rw [isUpToDate_eq (Cache.memo?_of_find? older.found)] at ran
    obtain ⟨⟨outcome, checked⟩, ran, same⟩ := Option.map_eq_some_iff.mp ran
    obtain ⟨-, -, active, -⟩ :=
      older.unwinds sound steady fresh (List.append_nil entry.dependencies).symm ran
    obtain rfl := (Prod.mk.inj same).2
    simp [Context.truncate, Context.depth, active]

/-- While a query is computed, its frame is the innermost one. -/
theorem Starts.attributes (starts : Starts rules (fetch rules depth) query context slot start)
    (sound : context.Sound (.plain rules) path) (fresh : start.cycle? rules slot = none)
    {rest : Computation S (S.Value query)}
    (proceeds : Proceeds rules (fetch rules depth) (rules.compute query)
      (start.pushFrame slot .computing) rest place readings reports) :
    query ∉ path ∧ place.Sound (.plain rules) (query :: path) ∧
      ∃ reads, context.Attributes query slot readings reports place reads := by
  obtain ⟨sound', grows, entry, here, -⟩ := starts.sound sound
  obtain ⟨grows', -, reads, progress⟩ := proceeds.progress (starts.begun sound)
  refine ⟨sound'.not_mem_of_cycle? (Cache.query?_eq here) fresh, progress.sound, reads, ?_⟩
  have kept : place.cache.memo? slot = some ⟨query, entry⟩ :=
    (grows'.cache.busy slot List.mem_cons_self).trans here
  exact
    { active := starts.active_eq sound ▸ progress.active
      query := Cache.query?_eq kept
      reads := progress.assigned
      sink := grows'.sink.trans grows.sink }

/-- A request made by another one is made with the frame of that one on top. -/
theorem Nests.simple (nests : Nests rules (fetch rules depth) query context other there)
    (sound : context.Sound (.plain rules) path) :
    query ∉ path ∧ there.Sound (.plain rules) (query :: path) ∧
      context.active <:+ there.active := by
  obtain ⟨sound', -⟩ := nests.sound sound
  cases nests with
  | read starts fresh proceeds =>
    obtain ⟨unrepeated, -, reads, attributes⟩ := starts.attributes sound fresh proceeds
    exact ⟨unrepeated, sound', attributes.active ▸ List.suffix_cons _ _⟩
  | @check slot _ _ _ _ checked _ older steady fresh split ran =>
    obtain ⟨unrepeated, -, active, -⟩ := older.unwinds sound steady fresh split ran
    have counted : (checked.updateCache Cache.countValidation).active =
        .start slot .validating :: context.active := active
    exact ⟨unrepeated, sound', counted ▸ List.suffix_cons _ _⟩

/-- A request made in the course of another one is made above the frames of that one. -/
theorem Involves.simple {inner : Nat}
    (involves : Involves rules depth query context inner other there)
    (sound : context.Sound (.plain rules) path) (distinct : path.Nodup) :
    ∃ path', there.Sound (.plain rules) path' ∧ path'.Nodup ∧ context.active <:+ there.active := by
  -- The invariant is the path of the queries in flight: each nested request adds one that is new.
  induction involves with
  | self => exact ⟨path, sound, distinct, List.suffix_refl _⟩
  | @nested inner other third there place _ nests ih =>
    obtain ⟨outer, sound', distinct', above⟩ := ih
    obtain ⟨unrepeated, sound'', above'⟩ := nests.simple sound'
    exact ⟨other :: outer, sound'', List.nodup_cons.mpr ⟨unrepeated, distinct'⟩,
      above.trans above'⟩

/-- A request ends with the frames that it began with. -/
theorem active_eq_of_fetch {outcome : Except QueryError (Nat × Shared (S.Value query))}
    (sound : context.Sound (.plain rules) path)
    (ran : fetch rules depth query context = some (outcome, place)) :
    place.Sound (.plain rules) path ∧ place.active = context.active := by
  have fetched := (serves_fetch (.plain rules) depth _ _ _ sound trivial trivial).2 _ _ ran
  exact ⟨fetched.sound, fetched.active⟩

/-- The queries in flight are distinct wherever a request goes through. -/
theorem Passes.simple (passes : Passes rules depth query context place)
    (sound : context.Sound (.plain rules) path) (distinct : path.Nodup) :
    place.IsSimple ∧ context.active <:+ place.active := by
  cases passes with
  | begins => exact ⟨sound.isSimple distinct, List.suffix_refl _⟩
  | checks older steady fresh split ran =>
    obtain ⟨unrepeated, sound', active, -⟩ := older.unwinds sound steady fresh split ran
    exact ⟨sound'.isSimple (List.nodup_cons.mpr ⟨unrepeated, distinct⟩),
      active ▸ List.suffix_cons _ _⟩
  | starts starts =>
    obtain ⟨sound', -⟩ := starts.sound sound
    exact ⟨sound'.isSimple distinct, starts.active_eq sound ▸ List.suffix_refl _⟩
  | computes starts fresh proceeds =>
    obtain ⟨unrepeated, sound', reads, attributes⟩ := starts.attributes sound fresh proceeds
    exact ⟨sound'.isSimple (List.nodup_cons.mpr ⟨unrepeated, distinct⟩),
      attributes.active ▸ List.suffix_cons _ _⟩
  | ends ran =>
    obtain ⟨sound', active⟩ := active_eq_of_fetch sound ran
    exact ⟨sound'.isSimple distinct, active ▸ List.suffix_refl _⟩

theorem Visits.simple (visits : Visits rules depth query context place)
    (sound : context.Sound (.plain rules) path) (distinct : path.Nodup) :
    place.IsSimple ∧ context.active <:+ place.active := by
  obtain ⟨inner, other, there, involves, passes⟩ := visits
  obtain ⟨outer, sound', distinct', above⟩ := involves.simple sound distinct
  obtain ⟨simple, above'⟩ := passes.simple sound' distinct'
  exact ⟨simple, above.trans above'⟩

/-- A request for a query leaves the frames as it found them. What goes on in its course is noted in
the frames of the queries that do it; a check of a memo notes nothing. -/
structure Unwinds (rules : Rules S) (depth : Nat) (query : S.Query) (context : Context S) :
    Prop where
  simple : ∀ place, Visits rules depth query context place →
    place.IsSimple ∧ context.active <:+ place.active
  ends : ∀ outcome after, fetch rules depth query context = some (outcome, after) →
    after.active = context.active
  matched : (∀ other, (rules.compute other).Raises (· ≠ .stackMismatch)) →
    ∀ after, fetch rules depth query context ≠ some (.error .stackMismatch, after)
  computes : ∀ inner slot start rest place readings reports, depth = inner + 1 →
    Starts rules (fetch rules inner) query context slot start →
    start.cycle? rules slot = none →
    Proceeds rules (fetch rules inner) (rules.compute query) (start.pushFrame slot .computing)
      rest place readings reports →
    ∃ reads, context.Attributes query slot readings reports place reads ∧
      popFrame context.depth place = some (.ok ⟨slot, .computing, reads, reports⟩,
        { place with active := context.active })
  checks : ∀ inner slot (entry : Entry S query) done rest outcome place, depth = inner + 1 →
    HasOlder context query slot entry → rules.isVolatile query = false →
    context.cycle? rules slot = none → entry.dependencies = done ++ rest →
    areUnchanged (fetch rules inner) entry.verifiedAt done
      (context.pushFrame slot .validating) = some (outcome, place) →
    place.active = .start slot .validating :: context.active ∧ place.sink = context.sink

theorem unwinds (sound : context.Sound (.plain rules) path) (distinct : path.Nodup) :
    Unwinds rules depth query context where
  simple _ visits := visits.simple sound distinct
  ends _ _ ran := (active_eq_of_fetch sound ran).2
  matched raises after ran := by
    have fetched := (serves_fetch (.plain rules) depth _ _ _ sound trivial trivial).2 _ _ ran
    exact (fetched.error _ rfl).failure _ raises (fun _ => nofun) rfl
  computes := by
    rintro inner slot start rest place readings reports rfl starts fresh proceeds
    obtain ⟨-, -, reads, attributes⟩ := starts.attributes sound fresh proceeds
    exact ⟨reads, attributes, popFrame_apply attributes.active⟩
  checks := by
    rintro inner slot entry done rest outcome place rfl older steady fresh split ran
    exact (older.unwinds sound steady fresh split ran).2.2

end Run

namespace Context

variable {drift : S.World → S.World → Prop} {context : Context S}

/-- Between the operations on a session no query is in flight, and every request made in the course
of one unwinds. No frame is missed at its end, unless a computation says so itself. -/
theorem Reachable.stack_unwinds (reachable : context.Reachable rules drift) :
    context.active = [] ∧ (∀ after, Step rules drift context after → after.active = []) ∧
      (∀ depth query inner other there, Run.Involves rules depth query context inner other there →
        Run.Unwinds rules inner other there) ∧
      ((∀ query, (rules.compute query).Raises (· ≠ .stackMismatch)) → ∀ depth query after,
        Run.request rules depth query context ≠ some (.error .stackMismatch, after)) := by
  have sound := reachable.sound_plain
  refine ⟨sound.active_eq, ?_, ?_, ?_⟩
  · intro after step
    obtain ⟨world, collects, leads⟩ := reachable
    have reachable' : after.Reachable rules drift := ⟨world, collects, leads.tail step⟩
    exact reachable'.sound_plain.active_eq
  · intro depth query inner other there involves
    obtain ⟨path, sound', distinct, -⟩ := involves.simple sound .nil
    exact Run.unwinds sound' distinct
  · intro raises depth query after ran
    have answered := (meets_request sound trivial).2 _ _ ran
    exact (answered.error _ rfl).1.failure _ raises (fun _ => nofun) rfl

/-- The memo of the lamp is out of date, and the computation of the lamp reads the fuse first. -/
theorem exists_access_fuse : ∃ slot start shared place,
    Run.Starts Circuit.rules (Run.fetch Circuit.rules 3) Circuit.Part.lamp Circuit.resumed slot start ∧
      Run.access (Run.fetch Circuit.rules 3) Circuit.Part.fuse (start.pushFrame slot .computing) =
        some (.ok shared, place) := by
  have checked : (Circuit.resumed.cache.find? Circuit.Part.lamp).any (fun (slot, entry) =>
      entry.value.isSome && entry.verifiedAt != Circuit.resumed.revision &&
        entry.origin == .derived &&
        (match Run.isUpToDate (Run.fetch Circuit.rules 3) slot entry.verifiedAt Circuit.resumed with
          | some (.ok false, start) =>
            (Run.access (Run.fetch Circuit.rules 3) Circuit.Part.fuse
              (start.pushFrame slot .computing)).any (·.1.isOk)
          | _ => false)) = true := by decide +kernel
  obtain ⟨⟨slot, entry⟩, found, holds⟩ := Option.any_eq_true _ _ |>.mp checked
  simp only [Bool.and_eq_true, bne_iff_ne, beq_iff_eq] at holds
  obtain ⟨⟨⟨isSome, stale⟩, derived⟩, accessed⟩ := holds
  have idle := Circuit.reachable_resumed.sound_plain.active_eq
  split at accessed
  · rename_i start changed
    obtain ⟨⟨outcome, place⟩, accessed, isOk⟩ := (Option.any_eq_true _ _).mp accessed
    cases outcome with
    | error error => cases isOk
    | ok shared =>
      exact ⟨slot, start, shared, place, .changed ⟨found, isSome, stale, derived⟩ rfl
        (cycle?_of_idle Circuit.rules idle slot) changed, accessed⟩
  · cases accessed

/-- The lamp is computed again. Once it has read the fuse, its frame says so and can be popped; then it
requests itself, and the request fails. -/
theorem Reachable.stack_unwinds_lamp :
    ∃ (slot : Nat) (place : Context Circuit.signature) (reads : List Nat) (error : QueryError)
      (after : Context Circuit.signature), place.active = [⟨slot, .computing, reads, []⟩] ∧
      reads.map place.cache.query? = [some Circuit.Part.fuse] ∧
      Run.popFrame 0 place = some (.ok ⟨slot, .computing, reads, []⟩, { place with active := [] }) ∧
      Circuit.resumed.Gets Circuit.rules Circuit.Part.lamp (.error error) after ∧ after.active = [] := by
  obtain ⟨idle, ends, unwinds, -⟩ := Reachable.stack_unwinds Circuit.reachable_resumed
  obtain ⟨slot, start, shared, place, starts, accessed⟩ := exists_access_fuse
  have begun := (starts.active_eq Circuit.reachable_resumed.sound_plain).trans idle
  obtain ⟨reads, attributes, popped⟩ :=
    (unwinds 4 Circuit.Part.lamp 4 Circuit.Part.lamp Circuit.resumed .self).computes 3 slot start _
      place _ [] rfl starts (cycle?_of_idle Circuit.rules begun slot) (.read .start accessed)
  have active := attributes.active
  rw [idle] at active
  rw [depth, idle] at popped
  have failed : (Run.request Circuit.rules 4 Circuit.Part.lamp Circuit.resumed).any
      (fun result => !result.1.isOk) = true := by decide +kernel
  obtain ⟨⟨outcome, after⟩, ran, isError⟩ := (Option.any_eq_true _ _).mp failed
  cases outcome with
  | ok shared => cases isError
  | error error =>
    exact ⟨slot, place, reads, error, after, active, attributes.reads, popped, ⟨4, ran⟩,
      ends after (.request ran)⟩

end Context

end IncrementalFrontend
