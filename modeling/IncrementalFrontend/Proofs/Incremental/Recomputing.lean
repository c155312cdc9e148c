import IncrementalFrontend.Proofs.Incremental.Sessions

/-!
What is computed again, and why. The revision in which a memo changed last is that of a real change,
across skipped revisions, unchanged results and collections: whenever a dependency has changed since
its reader was verified, it was set from outside or computed to another value since then, and at the
root of that is an input that was set or a volatile query with another value.
-/
namespace IncrementalFrontend

namespace Circuit

def fused (context : Context signature) : Context signature :=
  ((Run.request rules 3 Part.fuse context).map (·.2)).getD context

def off : Context signature :=
  ((Context.start () false : Context signature).setInput rules Part.switch false).2

def on : Context signature :=
  ((fused off).setInput rules Part.switch true).2

def session : Nat → Context signature
  | 0 => .start () false
  | 1 => off
  | 2 => fused off
  | 3 => on
  | _ => fused on

theorem step_fused (context : Context signature) :
    Context.Step rules (fun _ _ => True) context (fused context) := by
  unfold fused
  cases ran : Run.request rules 3 Part.fuse context with
  | none => exact .hold context context.handles
  | some result => exact .request ran

theorem step_setInput (context : Context signature) (isOn : Bool) :
    Context.Step rules (fun _ _ => True) context (context.setInput rules Part.switch isOn).2 :=
  .setInput context Part.switch isOn () (.inr trivial)

theorem isSession : Context.IsSession rules (fun _ _ => True) session where
  start := ⟨(), false, rfl⟩
  step
    | 0 => step_setInput _ false
    | 1 => step_fused off
    | 2 => step_setInput _ true
    | 3 => step_fused on
    | _ + 4 => .hold (fused on) (fused on).handles

end Circuit

variable {S : Signature} {rules : Rules S} {drift : S.World → S.World → Prop} {query : S.Query}

/-- What happened to queries so far, with the revisions: which were set from outside, and which were
computed to values other than the stored ones. -/
structure Past (S : Signature) where
  sets : S.Query → Revision → Prop
  alters : S.Query → Revision → Prop

namespace Past

def Touches (past : Past S) (query : S.Query) (revision : Revision) : Prop :=
  past.sets query revision ∨ past.alters query revision

def Stirs (rules : Rules S) (past : Past S) (since : Revision) : Prop :=
  ∃ root revision, since < revision ∧
    (past.sets root revision ∨ rules.isVolatile root = true ∧ past.alters root revision)

theorem Stirs.mono {past : Past S} {earlier since : Revision} (order : earlier ≤ since)
    (stirs : past.Stirs rules since) : past.Stirs rules earlier := by
  obtain ⟨root, revision, later, happened⟩ := stirs
  exact ⟨root, revision, Nat.lt_of_le_of_lt order later, happened⟩

structure Extends (past longer : Past S) : Prop where
  sets : ∀ {query revision}, past.sets query revision → longer.sets query revision
  alters : ∀ {query revision}, past.alters query revision → longer.alters query revision

end Past

namespace Cache

variable {account : Account rules} {past longer : Past S} {revision : Revision}
  {cache start last : Cache S} {stack : List S.Query} {first next slot dependency : Nat}
  {other : S.Query}

/-- There is an explanation wherever a dependency has changed since its reader was verified. -/
def Explained (rules : Rules S) (past : Past S) (cache : Cache S) : Prop :=
  ∀ ⦃slot query entry⦄, cache.memo? slot = some ⟨query, entry⟩ →
    ∀ dependency ∈ entry.dependencies, ∀ ⦃other known⦄,
      cache.memo? dependency = some ⟨other, known⟩ → entry.verifiedAt < known.changedAt →
        past.Touches other known.changedAt ∧ past.Stirs rules entry.verifiedAt

theorem Explained.extend (explained : cache.Explained rules past) (more : past.Extends longer) :
    cache.Explained rules longer := by
  intro slot query entry here dependency read other known there newer
  obtain ⟨touches, root, revision, later, happened⟩ := explained here dependency read there newer
  exact ⟨touches.imp more.sets more.alters, root, revision, later,
    happened.imp more.sets (And.imp_right more.alters)⟩

theorem Explained.of_subset (explained : start.Explained rules past)
    (subset : ∀ {slot memo}, last.memo? slot = some memo → start.memo? slot = some memo) :
    last.Explained rules past :=
  fun _ _ _ here dependency read _ _ there =>
    explained (subset here) dependency read (subset there)

/-- An input that is set belongs to the past. -/
theorem Explained.set {value : S.Value query} {entry : Entry S query}
    (explained : start.Explained rules past)
    (set : Sets revision query value slot entry start last) (noted : past.sets query revision)
    (older : ∀ {slot query entry}, start.memo? slot = some ⟨query, entry⟩ →
      entry.verifiedAt < revision) : last.Explained rules past := by
  intro place reader known here dependency read other below there newer
  obtain here | isSet := set.later.origin here
  · rw [set.memo?] at there
    split at there
    · cases there
      rw [set.isSet.changedAt]
      exact ⟨.inl noted, query, revision, older here, .inl noted⟩
    · exact explained here dependency read there newer
  · simp [isSet.dependencies] at read

def Dates (rules : Rules S) (past : Past S) (revision : Revision) (start last : Cache S) : Prop :=
  ∀ ⦃slot query before⦄, start.memo? slot = some ⟨query, before⟩ → before.value.isSome →
    ∃ after, last.memo? slot = some ⟨query, after⟩ ∧ (after.changedAt = before.changedAt ∨
      after.changedAt = revision ∧ past.alters query revision ∧
        past.Stirs rules before.verifiedAt)

/-- A dependency that has changed at last since its reader was verified at the start was touched. -/
theorem Dates.touches (dates : Dates rules past revision start last)
    (accounted : start.Accounted account revision) (explained : start.Explained rules past)
    {entry : Entry S query} (here : start.memo? slot = some ⟨query, entry⟩)
    (read : dependency ∈ entry.dependencies) {known : Entry S other}
    (there : last.memo? dependency = some ⟨other, known⟩)
    (newer : entry.verifiedAt < known.changedAt) :
    past.Touches other known.changedAt ∧ past.Stirs rules entry.verifiedAt := by
  obtain ⟨third, before, found, isSome, order⟩ := accounted.dependency here dependency read
  obtain ⟨after, there', changed⟩ := dates found isSome
  cases there.symm.trans there'
  obtain same | ⟨same, alters, stirs⟩ := changed
  · rw [same] at newer ⊢
    exact explained here dependency read found newer
  · rw [same]
    exact ⟨.inr alters, stirs.mono order⟩

def Notes (account : Account rules) (revision : Revision) (start : Cache S) (first : Nat)
    (past : Past S) : Prop :=
  ∀ ⦃slot query count readings reports old shared⦄, start.Stores query old →
    account.journal.Executed slot query count readings reports shared →
    first ≤ shared.identity → rules.isUnchanged query old.value shared.value = false →
      past.alters query revision

section Changes

variable (changes : start.Changes account revision stack first last next)
  (accounted : start.Accounted account revision) (explained : start.Explained rules past)
  (notes : start.Notes account revision first past)

include changes accounted explained notes

/-- A memo keeps the revision of its last change, unless its query is computed to another value. -/
theorem Changes.dates : Dates rules past revision start last := by
  induction changes with
  | refl => exact fun _ _ _ here _ => ⟨_, here, .inl rfl⟩
  | recount _ _ _ ih => exact ih
  | insert changes absent _ _ ih =>
    intro slot query before here isSome
    obtain ⟨after, there, changed⟩ := ih here isSome
    exact ⟨after, memo?_insert_of_memo? (changes.accounted accounted).wellFormed _ there, changed⟩
  | @verify _ _ place _ _ entry _ changes renews _ _ _ ih =>
    intro slot query before here isSome
    obtain ⟨after, there, changed⟩ := ih here isSome
    by_cases same : slot = place
    · subst same
      cases there.symm.trans renews.live
      exact ⟨_, renews.memo?_self, changed⟩
    · exact ⟨after, (renews.memo?_ne same).trans there, changed⟩
  | @compute cache next place path _ entry value frame changes renews derived reason _ _ ih =>
    intro slot query before here isSome
    obtain ⟨after, there, changed⟩ := ih here isSome
    by_cases same : slot = place
    · subst same
      cases there.symm.trans renews.live
      refine ⟨_, renews.memo?_self, ?_⟩
      -- The memo was stale until now, so it is as it was at the start.
      obtain here' | ⟨absent, -⟩ := changes.of_stale accounted renews.live renews.stale
      · cases here.symm.trans here'
        cases backdated : entry.isBackdated rules value with
        | true => exact .inl (by simp [Entry.recomputed, backdated])
        | false =>
          obtain ⟨old, stored⟩ := Option.isSome_iff_exists.mp isSome
          obtain ⟨readings, executed, -⟩ := renews.course derived
          have older : entry.verifiedAt < revision :=
            Nat.lt_of_le_of_ne (accounted.verifiedAt_le here) fun now => renews.stale ⟨isSome, now⟩
          have differs : rules.isUnchanged _ old.value value = false := by
            simpa [Entry.isBackdated, stored] using backdated
          have alters : past.alters _ revision :=
            notes ⟨slot, entry, here, stored⟩ executed (changes.adds accounted).le differs
          refine .inr ⟨by simp [Entry.recomputed, backdated], alters, ?_⟩
          cases reason with
          | unset none => simp [none] at isSome
          | volatile volatile => exact ⟨_, revision, older, .inr ⟨volatile, alters⟩⟩
          | changed read there' _ newer =>
            exact (ih.touches accounted explained here read there' newer).2
      · exact absurd (query?_eq here) (absent slot)
    · exact ⟨after, (renews.memo?_ne same).trans there, changed⟩

/-- Requests leave nothing unexplained. -/
theorem Changes.explains : last.Explained rules past := by
  have dates : Dates rules past revision start last := changes.dates accounted explained notes
  have accounted' := changes.accounted accounted
  intro slot query entry here dependency read other known there newer
  -- Dependencies of a memo verified in the revision cannot have changed since, so this one is old.
  have stale : ¬ entry.IsCurrent revision := by
    rintro ⟨-, now⟩
    have order := Nat.le_trans (accounted'.changedAt_le there) (accounted'.verifiedAt_le there)
    exact absurd (now ▸ newer) (Nat.not_lt.mpr order)
  obtain before | ⟨-, new⟩ := changes.of_stale accounted here stale
  · exact dates.touches accounted explained before read there newer
  · cases new
    cases read

end Changes

end Cache

namespace Run

variable {depth inner slot : Nat} {other : S.Query} {path : List S.Query}
  {context there start after : Context S} {readings : List (Reading S)}
  {reports : List Diagnostic}

/-- What a request did to the memos until it makes another one. -/
theorem Nests.changes (nests : Nests rules (fetch rules depth) query context other there)
    (sound : context.Sound (.plain rules) path) :
    context.cache.Changes (.plain rules) context.revision [] context.nextIdentity there.cache
      there.nextIdentity := by
  cases nests with
  | @read slot start _ _ _ _ _ starts fresh proceeds =>
    obtain ⟨-, grows, -⟩ := starts.sound sound
    obtain ⟨grows', -⟩ := proceeds.progress (starts.begun sound)
    have begun := grows'.changes
    rw [show (start.pushFrame slot .computing).revision = context.revision from grows.revision]
      at begun
    exact (grows.changes.trans begun).within (List.nil_suffix ..)
  | @check _ _ _ _ _ there _ older steady fresh split ran here =>
    obtain ⟨-, grows⟩ := older.checking sound steady fresh split ran
    have counted := grows.trans (grows_countValidation there (.plain rules) (query :: path))
    exact counted.changes.within (List.nil_suffix ..)

theorem Involves.changes (involves : Involves rules depth query context inner other there)
    (sound : context.Sound (.plain rules) path) :
    context.cache.Changes (.plain rules) context.revision [] context.nextIdentity there.cache
      there.nextIdentity := by
  induction involves with
  | self => exact .refl
  | nested involves nests ih =>
    obtain ⟨⟨outer, sound'⟩, -, revision⟩ := involves.sound sound
    have more := nests.changes sound'
    rw [revision] at more
    exact ih.trans more

/-- A computation that came to a value completes the execution of its query. -/
theorem Starts.exists_execute_eq {shared : Shared (S.Value query)}
    (starts : Starts rules (fetch rules depth) query context slot start)
    (sound : context.Sound (.plain rules) path) (fresh : start.cycle? rules slot = none)
    (proceeds : Proceeds rules (fetch rules depth) (rules.compute query)
      (start.pushFrame slot .computing) (.pure shared.value) after readings reports)
    (identity : shared.identity = after.nextIdentity) :
    ∃ last, execute rules (fetch rules depth) slot query start =
      some (.ok (slot, shared), last) := by
  obtain ⟨-, -, entry, here, -⟩ := starts.sound sound
  obtain ⟨grows, -, reads, progress⟩ := proceeds.progress (starts.begun sound)
  have here' : after.cache.memo? slot = some ⟨query, entry⟩ := by
    rw [grows.cache.busy slot List.mem_cons_self]
    exact here
  have computed : evaluate rules (fetch rules depth) (rules.compute query)
      (start.pushFrame slot .computing) = some (.ok shared.value, after) := by
    rw [proceeds.evaluate_eq]
    rfl
  have executed := execute_eq fresh computed progress.active here'
  rw [← identity] at executed
  exact ⟨_, executed⟩

end Run

namespace Context

variable {context after : Context S} {slot : Nat} {shared : Shared (S.Value query)}
  {entry : Entry S query}

def Sets (rules : Rules S) (context after : Context S) (query : S.Query) : Prop :=
  ∃ value world, context.unchangedInput? rules query value = none ∧
    after = { (context.setInput rules query value).2 with world }

/-- A request completes the execution of a query with a result that differs from the stored one. -/
def Alters (rules : Rules S) (context after : Context S) (query : S.Query) : Prop :=
  ∃ old new, context.cache.Stores query old ∧ Completes rules context after query new ∧
    old.value ≠ new.value

/-- Where a query comes to be computed again there is a reason, and it is still there when the
request ends. -/
theorem Begins.reason (begins : Begins rules context after query)
    (propagates : ∀ query, (rules.compute query).Propagates)
    (sound : context.Sound (.plain rules) [])
    (here : context.cache.memo? slot = some ⟨query, entry⟩) :
    after.cache.Reason rules context.revision entry := by
  obtain ⟨depth, asked, outcome, ran, inner, there, place, start, involves, starts⟩ := begins
  obtain ⟨result, middle, fetched, cache, -⟩ := Run.exists_fetch_of_request sound trivial ran
  obtain ⟨⟨path, sound'⟩, -, revision⟩ := involves.sound sound
  obtain ⟨-, grows, entry', here', -, stale, reason⟩ := starts.sound sound'
  have begun := grows.changes.within (List.nil_suffix ..)
  have remains := (involves.later starts propagates sound fetched).1
  rw [grows.revision] at remains stale reason
  rw [revision] at begun remains stale reason
  have changes := (involves.changes sound).trans begun
  have same : place = slot :=
    (changes.accounted sound.accounted).wellFormed.unique (Cache.query?_eq here')
      (changes.query? sound.accounted (Cache.query?_eq here))
  subst same
  -- The memo is stale where the computation starts, so it is as it was when the request was made.
  obtain here'' | ⟨absent, -⟩ := changes.of_stale sound.accounted here' stale
  · cases here.symm.trans here''
    rw [cache]
    exact remains.reason reason
  · exact absurd (Cache.query?_eq here) (absent place)

/-- Nothing is stored but values with new identities. -/
theorem Step.adds (step : Step rules drift context after)
    (sound : context.Sound (.plain rules) []) :
    context.cache.Adds context.nextIdentity after.cache after.nextIdentity := by
  have collected : context.cache.Adds context.nextIdentity (context.collected rules).cache
      (context.collected rules).nextIdentity := by
    unfold Context.collected
    split
    · exact .of_stores stores_of_collectGarbage
    · exact .of_stores id
  cases step with
  | request ran => exact ((meets_request sound trivial).2 _ _ ran).changes.adds sound.accounted
  | setInput query value world unchanged =>
    unfold Context.setInput
    cases context.unchangedInput? rules query value with
    | some revision => exact .of_stores id
    | none =>
      have wellFormed : (context.advance rules).cache.WellFormed :=
        sound.collected.1.accounted.wellFormed
      exact collected.trans (adds_storeInput wellFormed value)
  | advance world => exact collected
  | collectGarbage => exact .of_stores stores_of_collectGarbage
  | report diagnostic =>
    unfold Context.report
    split <;> exact .of_stores id
  | hold | takeDiagnostics | drift => exact .of_stores id

theorem Reachable.leads (reachable : context.Reachable rules drift)
    (leads : Leads rules drift context after) : after.Reachable rules drift := by
  obtain ⟨world, collects, before⟩ := reachable
  exact ⟨world, collects, before.trans leads⟩

theorem Reachable.adds (reachable : context.Reachable rules drift)
    (leads : Leads rules drift context after) :
    context.cache.Adds context.nextIdentity after.cache after.nextIdentity := by
  induction leads with
  | refl => exact .of_stores id
  | tail leads step ih => exact ih.trans (step.adds (reachable.leads leads).sound_plain)

theorem Reachable.identified (reachable : context.Reachable rules drift) :
    context.cache.Identified context.nextIdentity := by
  obtain ⟨world, collects, leads⟩ := reachable
  have start : (Context.start world collects : Context S).Reachable rules drift :=
    ⟨world, collects, .refl⟩
  have none {query : S.Query} {shared : Shared (S.Value query)} :
      ¬ (Cache.empty : Cache S).Stores query shared := by
    rintro ⟨slot, entry, here, -⟩
    simp at here
  exact (start.adds leads).identified
    ⟨fun stored => absurd stored none, fun stored => absurd stored none⟩

/-- An execution that stored its result with a new identity was completed by the latest request. -/
theorem Reachable.completes (reachable : context.Reachable rules drift)
    (propagates : ∀ query, (rules.compute query).Propagates) {depth : Nat} {asked : S.Query}
    {outcome : Except QueryError (Shared (S.Value asked))}
    (ran : Run.request rules depth asked context = some (outcome, after)) {count : Nat}
    {readings : List (Reading S)} {reports : List Diagnostic}
    (executed : ((context.history rules drift).adjoin depth asked context).Executed slot query count
      readings reports shared)
    (new : context.nextIdentity ≤ shared.identity) :
    Completes rules context after query shared := by
  obtain ⟨inner, there, start, entry, middle, made, starts, fresh, -, -, proceeds, identity⟩ :=
    executed
  obtain ⟨earlier, outer, other, outcome', later, reachable', ran', leads, involves⟩ | involves :=
    made
  -- What earlier requests stored has the identities of earlier values.
  · obtain ⟨⟨path, sound⟩, -⟩ := involves.sound reachable'.sound_plain
    obtain ⟨last, executed⟩ := starts.exists_execute_eq sound fresh proceeds identity
    have completes : Completes rules earlier later query shared :=
      ⟨outer, other, outcome', ran', inner, there, slot, start, last, involves, starts, executed⟩
    obtain ⟨-, place, known, here, value, -⟩ :=
      completes.exists_current propagates reachable'.sound_plain
    have known := reachable'.leads (.single (.request ran'))
    have below := known.identified.below ⟨place, _, here, value⟩
    exact absurd (Nat.lt_of_lt_of_le below (known.adds leads).le) (Nat.not_lt.mpr new)
  · obtain ⟨⟨path, sound⟩, -⟩ := involves.sound reachable.sound_plain
    obtain ⟨last, executed⟩ := starts.exists_execute_eq sound fresh proceeds identity
    exact ⟨depth, asked, outcome, ran, inner, there, slot, start, last, involves, starts, executed⟩

structure Notes (rules : Rules S) (past : Past S) (context after : Context S) : Prop where
  sets : ∀ {query}, Sets rules context after query → past.sets query after.revision
  alters : ∀ {query}, Alters rules context after query → past.alters query after.revision

section Notes

variable {past : Past S} (notes : Notes rules past context after)
  (reachable : context.Reachable rules drift)
  (propagates : ∀ query, (rules.compute query).Propagates)
  (faithful : ∀ query old new, rules.isUnchanged query old new = true ↔ old = new)
  (explained : context.cache.Explained rules past)

include notes reachable propagates faithful explained

theorem Notes.request {depth : Nat} {asked : S.Query}
    {outcome : Except QueryError (Shared (S.Value asked))}
    (ran : Run.request rules depth asked context = some (outcome, after)) :
    after.cache.Explained rules past ∧
      Cache.Dates rules past context.revision context.cache after.cache := by
  obtain ⟨now, sound⟩ := reachable.follows (.plain rules drift)
  have known : context.Sound ((Account.plain rules).among
      ((context.history rules drift).adjoin depth asked context)) [] :=
    sound.among fun _ _ _ => .inl
  have answered := (meets_request known (.inr .self)).2 _ _ ran
  have noted : Cache.Notes ((Account.plain rules).among
      ((context.history rules drift).adjoin depth asked context)) context.revision context.cache
        context.nextIdentity past := by
    intro slot query count readings reports old shared stored executed new differs
    rw [← answered.revision]
    refine notes.alters ⟨old, shared, stored, reachable.completes propagates ran executed new, ?_⟩
    intro same
    rw [(faithful query _ _).mpr same] at differs
    cases differs
  exact ⟨answered.changes.explains known.accounted explained noted,
    answered.changes.dates known.accounted explained noted⟩

theorem Notes.step (step : Step rules drift context after) : after.cache.Explained rules past := by
  have sound := reachable.sound_plain
  have collected : (context.collected rules).cache.Explained rules past := by
    unfold Context.collected
    split
    · exact explained.of_subset fun here => (Cache.memo?_of_evict here).2
    · exact explained
  cases step with
  | request ran => exact (notes.request reachable propagates faithful explained ran).1
  | setInput query value world unchanged =>
    cases known : context.unchangedInput? rules query value with
    | some revision =>
      rw [setInput_of_unchanged known]
      exact explained
    | none =>
      have noted := notes.sets ⟨value, world, known, rfl⟩
      rw [setInput_of_changed known] at noted ⊢
      obtain ⟨slot, entry, sets, -⟩ :=
        sets_storeInput (context.advance rules) sound.collected.1.accounted.wellFormed query value
      exact collected.set sets noted fun here =>
        Nat.lt_succ_of_le (sound.collected.1.accounted.verifiedAt_le here)
  | advance world => exact collected
  | collectGarbage => exact explained.of_subset fun here => (Cache.memo?_of_evict here).2
  | report diagnostic =>
    unfold Context.report
    split <;> exact explained
  | hold | takeDiagnostics | drift => exact explained

end Notes

def pastOf (rules : Rules S) (session : Nat → Context S) (time : Nat) : Past S where
  sets query revision := ∃ moment < time, (session (moment + 1)).revision = revision ∧
    Sets rules (session moment) (session (moment + 1)) query
  alters query revision := ∃ moment < time, (session (moment + 1)).revision = revision ∧
    Alters rules (session moment) (session (moment + 1)) query

namespace IsSession

variable {session : Nat → Context S}

theorem extends_pastOf (rules : Rules S) (session : Nat → Context S) (time : Nat) :
    (pastOf rules session time).Extends (pastOf rules session (time + 1)) where
  sets happened := by
    obtain ⟨moment, earlier, rest⟩ := happened
    exact ⟨moment, Nat.lt_succ_of_lt earlier, rest⟩
  alters happened := by
    obtain ⟨moment, earlier, rest⟩ := happened
    exact ⟨moment, Nat.lt_succ_of_lt earlier, rest⟩

theorem notes_pastOf (rules : Rules S) (session : Nat → Context S) (time : Nat) :
    Notes rules (pastOf rules session (time + 1)) (session time) (session (time + 1)) where
  sets happened := ⟨time, Nat.lt_succ_self time, rfl, happened⟩
  alters happened := ⟨time, Nat.lt_succ_self time, rfl, happened⟩

section

variable (isSession : IsSession rules drift session)
  (propagates : ∀ query, (rules.compute query).Propagates)
  (faithful : ∀ query old new, rules.isUnchanged query old new = true ↔ old = new)

include isSession propagates faithful

theorem explained (time : Nat) :
    (session time).cache.Explained rules (pastOf rules session time) := by
  induction time with
  | zero =>
    obtain ⟨world, collects, start⟩ := isSession.start
    rw [start]
    intro slot query entry here
    simp [Context.start] at here
  | succ time ih =>
    exact (notes_pastOf rules session time).step (isSession.reachable time) propagates faithful
      (ih.extend (extends_pastOf rules session time)) (isSession.step time)

/-- A memo that is computed again has a dependency that was touched since it was verified. -/
theorem exists_touches (time : Nat) {slot : Nat} {entry : Entry S query}
    (here : (session time).cache.memo? slot = some ⟨query, entry⟩) (isSome : entry.value.isSome)
    (steady : rules.isVolatile query = false)
    (begins : Begins rules (session time) (session (time + 1)) query) :
    (∃ dependency ∈ entry.dependencies, ∃ other revision,
      (session time).cache.query? dependency = some other ∧ entry.verifiedAt < revision ∧
        (pastOf rules session (time + 1)).Touches other revision) ∧
      (pastOf rules session (time + 1)).Stirs rules entry.verifiedAt := by
  have sound := isSession.sound time
  have reason := begins.reason propagates sound here
  obtain ⟨depth, asked, outcome, ran, -⟩ := begins
  have explained := (isSession.explained propagates faithful time).extend
    (extends_pastOf rules session time)
  obtain ⟨-, dates⟩ := (notes_pastOf rules session time).request (isSession.reachable time)
    propagates faithful explained ran
  cases reason with
  | unset none => simp [none] at isSome
  | volatile volatile => simp [steady] at volatile
  | @changed dependency other known read there current newer =>
    obtain ⟨touches, stirs⟩ := dates.touches sound.accounted explained here read there newer
    obtain ⟨third, before, found, isSome', -⟩ := sound.accounted.dependency here dependency read
    obtain ⟨after, there', -⟩ := dates found isSome'
    cases there.symm.trans there'
    exact ⟨⟨dependency, read, other, _, Cache.query?_eq found, newer, touches⟩, stirs⟩

/-- Within a revision, each query completes its execution at most once. A query with a value, if it
is not volatile, is computed again only if one of its dependencies was set or computed to another
value after its memo was verified last; and it is not if no input was set and no volatile query was
computed to another value since then. -/
theorem recomputes_only_after_changes :
    (∀ first last query shared shared',
      Completes rules (session first) (session (first + 1)) query shared →
      Completes rules (session last) (session (last + 1)) query shared' →
      (session first).revision = (session last).revision → first = last ∧ shared = shared') ∧
    ∀ time slot query entry, (session time).cache.memo? slot = some ⟨query, entry⟩ →
      entry.value.isSome → rules.isVolatile query = false →
      (Begins rules (session time) (session (time + 1)) query →
        ∃ dependency ∈ entry.dependencies, ∃ other,
          (session time).cache.query? dependency = some other ∧
          ∃ moment ≤ time, entry.verifiedAt < (session (moment + 1)).revision ∧
            (Sets rules (session moment) (session (moment + 1)) other ∨
              Alters rules (session moment) (session (moment + 1)) other)) ∧
      ((∀ moment ≤ time, entry.verifiedAt < (session (moment + 1)).revision → ∀ root,
          ¬ Sets rules (session moment) (session (moment + 1)) root ∧
            (rules.isVolatile root = true →
              ¬ Alters rules (session moment) (session (moment + 1)) root)) →
        ¬ Begins rules (session time) (session (time + 1)) query) := by
  refine ⟨fun first last query shared shared' => isSession.completes_unique propagates, ?_⟩
  intro time slot query entry here isSome steady
  have again := isSession.exists_touches propagates faithful time here isSome steady
  constructor
  · intro begins
    obtain ⟨⟨dependency, read, other, revision, known, later, touches⟩, -⟩ := again begins
    refine ⟨dependency, read, other, known, ?_⟩
    obtain ⟨moment, before, rfl, sets⟩ | ⟨moment, before, rfl, alters⟩ := touches
    · exact ⟨moment, Nat.le_of_lt_succ before, later, .inl sets⟩
    · exact ⟨moment, Nat.le_of_lt_succ before, later, .inr alters⟩
  · intro calm begins
    obtain ⟨-, root, revision, later, sets | ⟨volatile, alters⟩⟩ := again begins
    · obtain ⟨moment, before, rfl, sets⟩ := sets
      exact (calm moment (Nat.le_of_lt_succ before) later root).1 sets
    · obtain ⟨moment, before, rfl, alters⟩ := alters
      exact (calm moment (Nat.le_of_lt_succ before) later root).2 volatile alters

end

end IsSession

/-- The fuse is computed again because the switch was turned on. -/
theorem IsSession.recomputes_only_after_changes_fuse : ∃ slot entry,
    (Circuit.session 3).cache.memo? slot = some ⟨Circuit.Part.fuse, entry⟩ ∧
      Begins Circuit.rules (Circuit.session 3) (Circuit.session 4) Circuit.Part.fuse ∧
      ∃ dependency ∈ entry.dependencies, ∃ other,
        (Circuit.session 3).cache.query? dependency = some other ∧
        ∃ moment ≤ 3, entry.verifiedAt < (Circuit.session (moment + 1)).revision ∧
          (Sets Circuit.rules (Circuit.session moment) (Circuit.session (moment + 1)) other ∨
            Alters Circuit.rules (Circuit.session moment) (Circuit.session (moment + 1))
              other) := by
  have checked : ((Circuit.session 3).cache.find? Circuit.Part.fuse).any (fun (slot, entry) =>
      entry.value.isSome && entry.verifiedAt != (Circuit.session 3).revision &&
        entry.origin == .derived &&
        (match Run.isUpToDate (Run.fetch Circuit.rules 2) slot entry.verifiedAt
            (Circuit.session 3) with
          | some (.ok isUpToDate, _) => !isUpToDate
          | _ => false)) = true := by decide +kernel
  have answered : (Run.request Circuit.rules 3 Circuit.Part.fuse (Circuit.session 3)).isSome := by
    decide +kernel
  obtain ⟨⟨slot, entry⟩, found, holds⟩ := Option.any_eq_true _ _ |>.mp checked
  obtain ⟨⟨outcome, after⟩, ran⟩ := Option.isSome_iff_exists.mp answered
  have next : Circuit.session 4 = after := by
    show Circuit.fused (Circuit.session 3) = after
    rw [Circuit.fused, ran]
    rfl
  simp only [Bool.and_eq_true, bne_iff_ne, beq_iff_eq] at holds
  obtain ⟨⟨⟨isSome, older⟩, derived⟩, changed⟩ := holds
  have here := Cache.memo?_of_find? found
  have begins : Begins Circuit.rules (Circuit.session 3) (Circuit.session 4) Circuit.Part.fuse := by
    split at changed
    · rename_i isUpToDate place checked
      obtain rfl : isUpToDate = false := by simpa using changed
      have fresh := Context.cycle?_of_idle Circuit.rules (Circuit.isSession.sound 3).active_eq slot
      refine ⟨3, Circuit.Part.fuse, outcome, next ▸ ran, 2, Circuit.session 3, slot, place, .self,
        ?_⟩
      exact .changed ⟨found, isSome, older, derived⟩ rfl fresh checked
    · cases changed
  refine ⟨slot, entry, here, begins, ?_⟩
  have minimal := (IsSession.recomputes_only_after_changes Circuit.isSession Circuit.propagates
    (fun _ (old new : Bool) => beq_iff_eq)).2
  exact (minimal 3 slot Circuit.Part.fuse entry here isSome rfl).1 begins

end Context

end IncrementalFrontend
