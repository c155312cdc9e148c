import IncrementalFrontend.Proofs.Frontend.Linking
import IncrementalFrontend.Proofs.Incremental.Sessions

/-!
Trees of files while a session goes on. Whatever happens to a session in which the tree of a file is
linked to its text, it stays linked; and if the text of the revision is known, a request for the tree
answers with what it is parsed to.
-/
namespace IncrementalFrontend

open Frontend (Query World rules signature)

/-- An entry with a value that was verified in the revision. -/
theorem Entry.isCurrent_of_map {S : Signature} {query : S.Query} {entry : Entry S query}
    {value : S.Value query} {revision : Revision} (known : entry.value.map (·.value) = some value)
    (now : entry.verifiedAt = revision) : entry.IsCurrent revision := by
  obtain ⟨shared, stored, -⟩ := Option.map_eq_some_iff.mp known
  exact ⟨by rw [stored]; rfl, now⟩

namespace Session

variable {session before after : Session} {key : FileKey} {slot : Nat}

def HasText (session : Session) (path : Name) (contents : FileContents) : Prop :=
  ∃ slot entry, session.cache.memo? slot = some ⟨.fileText path, entry⟩ ∧
    entry.value.map (·.value) = some contents ∧ entry.verifiedAt = session.revision

theorem IsLinked.of_absent (regular : session.Regular) (known : key.IsKnown session.names)
    (absent : ∀ slot, session.cache.query? slot ≠ some (.parseFile key)) : session.IsLinked key where
  wellFormed := regular.reachable.sound.accounted.wellFormed
  verifiedAt_le := regular.reachable.sound.accounted.verifiedAt_le
  known := known
  traces here := absurd (Cache.query?_eq here) (absent _)

namespace IsLinked

theorem run (linked : session.IsLinked key) (idle : session.active = []) {depth : Nat} {query : Query}
    {outcome : Except QueryError (Shared query.Value)}
    (ran : Run.request (S := signature) rules depth query session = some (outcome, after)) :
    after.IsLinked key := by
  have outside : Context.isInQuery (S := signature) session = false := by
    simp [Context.isInQuery, idle]
  have serves := (serves_fetch_linked key depth).all query linked
  have meets : Run.Meets (S := signature) (Run.request rules depth query) session False
      fun _ (after : Session) => after.IsLinked key := by
    unfold Run.request Run.access
    refine Run.meets_get_bind (Run.meets_bind (serves.mono ?_))
    rintro (error | ⟨slot, shared⟩) after ⟨⟨linked, -, -⟩, -⟩
    · exact linked
    · simp only [outside, Bool.false_eq_true, if_false]
      unfold Run.deliver
      refine Run.meets_bind (Run.meets_get_bind (Run.meets_ofExcept_bind (fun _ _ => linked) ?_))
      intro diagnostics _
      exact Run.meets_of_eq rfl (Run.meets_pure (linked.of_eq rfl rfl rfl))
  exact meets.2 outcome after ran

theorem request (linked : session.IsLinked key) (idle : session.active = []) {query : Query}
    {outcome : Except QueryError (Shared query.Value)}
    (requested : session.request query = (outcome, after)) : after.IsLinked key := by
  obtain ran | ⟨-, rfl⟩ := run_of_request requested
  · exact linked.run idle ran
  · exact linked

/-- A collection leaves the text as long as the tree stays. -/
theorem collectGarbage (linked : session.IsLinked key) (regular : session.Regular) :
    session.collectGarbage.2.IsLinked key where
  wellFormed := (Context.accounted_collectGarbage regular.reachable.sound.accounted).1.wellFormed
  verifiedAt_le here := linked.verifiedAt_le (Cache.memo?_of_evict here).2
  known := linked.known
  traces here derived value := by
    obtain ⟨stays, here⟩ := Cache.memo?_of_evict here
    obtain ⟨place, text, contents, reads, there, rest⟩ := linked.traces here derived value
    have goes := Context.collectable_closed regular.reachable.sound.accounted stays here
      (show place ∈ _ from reads ▸ List.mem_singleton_self place)
    exact ⟨place, text, contents, reads, (Cache.memo?_evict_of_not_mem goes).trans there, rest⟩

theorem collected (linked : session.IsLinked key) (regular : session.Regular) :
    IsLinked (Context.collected (S := signature) rules session) key := by
  unfold Context.collected
  split
  · exact linked.collectGarbage regular
  · exact linked

/-- In a later revision the text is the same or has changed. -/
theorem later (linked : before.IsLinked key) (newer : before.revision < after.revision)
    (later : before.cache.Later after.revision after.cache) (world : after.world = before.world) :
    after.IsLinked key where
  wellFormed := later.wellFormed
  verifiedAt_le here := by
    obtain here | isSet := later.origin here
    · exact Nat.le_trans (linked.verifiedAt_le here) (Nat.le_of_lt newer)
    · exact Nat.le_of_eq isSet.verifiedAt
  known := by
    unfold names
    rw [world]
    exact linked.known
  traces {slot entry shared} here derived value := by
    obtain here | isSet := later.origin here
    · have older := Nat.lt_of_le_of_lt (linked.verifiedAt_le here) newer
      obtain ⟨place, text, contents, reads, there, isSome, order, parses, same⟩ :=
        linked.traces here derived value
      have parses : key.Parses after.names contents shared.value := by
        unfold names
        rw [world]
        exact parses
      obtain ⟨text', there', rfl | isSet⟩ := later.kept there
      · exact ⟨place, text', contents, reads, there', isSome, order, parses, same⟩
      · refine ⟨place, text', contents, reads, there', isSet.value, ?_, parses, fun unchanged => ?_⟩
        · exact isSet.verifiedAt ▸ Nat.le_of_lt older
        · exact absurd (isSet.changedAt ▸ unchanged) (Nat.not_le.mpr older)
    · cases isSet.origin.symm.trans derived

end IsLinked

/-- Setting what is already set does nothing. Otherwise a new revision starts with what a collection
leaves, and the input is set in it. -/
theorem Regular.exists_sets (regular : session.Regular) (query : Query) (value : query.Value) :
    ((session.set query value).2 = session ∧ ∃ old,
        Cache.input? (S := signature) session.cache query = some old ∧
          Query.isUnchanged query old value = true) ∨
      (session.set query value).2.revision = session.revision + 1 ∧ ∃ slot entry,
        Cache.Sets (S := signature) (session.revision + 1) query value slot entry
          (Context.collected (S := signature) rules session).cache (session.set query value).2.cache := by
  unfold Session.set Context.setInput
  cases known : Context.unchangedInput? (S := signature) rules session query value with
  | some revision =>
    obtain ⟨old, stored, unchanged⟩ := Context.input?_of_unchangedInput? known
    exact .inl ⟨rfl, old, stored, unchanged⟩
  | none =>
    have advanced : (Context.advance (S := signature) rules session).revision =
        session.revision + 1 :=
      Context.revision_advance (S := signature) session
    have sound := (Context.Sound.collected (S := signature) regular.reachable.sound).1
    obtain ⟨slot, entry, sets, -⟩ := Context.sets_storeInput (S := signature)
      (Context.advance rules session) sound.accounted.wellFormed query value
    exact .inr ⟨advanced, slot, entry, advanced ▸ sets⟩

theorem IsLinked.step (linked : session.IsLinked key) (regular : session.Regular)
    (step : session.Step after) : after.IsLinked key := by
  have collected := linked.collected regular
  have revision : (Context.collected (S := signature) rules session).revision = session.revision :=
    Context.revision_collected (S := signature) session
  cases step with
  | intern text => exact linked.grow (session.names.keeps_intern text)
  | request query known => exact linked.request regular.idle rfl
  | set query value known =>
    have world : (session.set query value).2.world = session.world :=
      Upkeep.world_setInput (S := signature) rules session value
    obtain ⟨same, -⟩ | ⟨advanced, _, _, sets⟩ := regular.exists_sets query value
    · rw [same]
      exact linked
    · have same : (Context.collected (S := signature) rules session).world = session.world :=
        Context.world_collected (S := signature) session
      refine collected.later ?_ (advanced ▸ sets.later) (world.trans same.symm)
      exact revision ▸ advanced ▸ Nat.lt_succ_self _
  | advance =>
    refine collected.later (Nat.lt_succ_self _) ?_ rfl
    exact .refl collected.wellFormed _
  | collectGarbage => exact linked.collectGarbage regular
  | hold handles => exact linked.of_eq rfl rfl rfl
  | report diagnostic =>
    unfold Context.report
    split
    · exact linked.of_eq rfl rfl rfl
    · exact linked.of_eq rfl rfl rfl
  | takeDiagnostics => exact linked.of_eq rfl rfl rfl
  | world change same =>
    refine linked.grow ?_
    rw [same]
    exact .refl _

theorem Step.keeps (step : session.Step after) (regular : session.Regular) :
    session.names.Keeps after.names := by
  cases step with
  | intern text => exact session.names.keeps_intern text
  | request query known => exact (regular.request known rfl).2
  | set query value known =>
    have world : (session.set query value).2.world = session.world :=
      Upkeep.world_setInput (S := signature) rules session value
    unfold names
    rw [world]
    exact .refl _
  | advance =>
    have world : session.advance.world = session.world :=
      Upkeep.world_advance (S := signature) rules session
    unfold names
    rw [world]
    exact .refl _
  | collectGarbage => exact .refl _
  | hold handles => exact .refl _
  | report diagnostic =>
    unfold Context.report
    split
    · exact .refl _
    · exact .refl _
  | takeDiagnostics => exact .refl _
  | world change same => exact same ▸ .refl _

/-- However a session goes on, the tree stays linked to its text. -/
theorem IsLinked.steps (linked : before.IsLinked key) (regular : before.Regular)
    (steps : Relation.ReflTransGen Step before after) :
    after.IsLinked key ∧ after.Regular ∧ before.names.Keeps after.names := by
  induction steps with
  | refl => exact ⟨linked, regular, .refl _⟩
  | tail _ step ih =>
    obtain ⟨linked, regular, keeps⟩ := ih
    exact ⟨linked.step regular step, regular.step step, keeps.trans (step.keeps regular)⟩

/-- A tree that is up to date is that of the text. -/
theorem IsLinked.parses (linked : session.IsLinked key) (regular : session.Regular)
    {contents : FileContents} (text : session.HasText key.path contents)
    {entry : Entry signature (.parseFile key)} {shared : Shared SyntaxTree}
    (here : session.cache.memo? slot = some ⟨.parseFile key, entry⟩)
    (derived : entry.origin = .derived) (value : entry.value = some shared)
    (now : entry.verifiedAt = session.revision) : key.Parses session.names contents shared.value := by
  obtain ⟨place, text, there, known, textNow⟩ := text
  obtain ⟨place', _, _, -, there', -, -, parses, same⟩ := linked.traces here derived value
  obtain rfl := linked.wellFormed.unique (Cache.query?_eq there) (Cache.query?_eq there')
  cases there.symm.trans there'
  have unchanged : text.changedAt ≤ entry.verifiedAt := by
    rw [now, ← textNow]
    exact regular.reachable.sound.accounted.changedAt_le there
  cases known.symm.trans (same unchanged)
  exact parses

section Request

variable {context : Session} {place : Nat} {text : Entry signature (.fileText key.path)}
  {contents : Shared FileContents}

/-- A file is parsed when its text is known. -/
theorem exists_execute_parseFile (idle : context.active = []) (wellFormed : context.cache.WellFormed)
    (there : context.cache.memo? place = some ⟨.fileText key.path, text⟩)
    (known : text.value = some contents) (now : text.verifiedAt = context.revision)
    {entry : Entry signature (.parseFile key)}
    (here : context.cache.memo? slot = some ⟨.parseFile key, entry⟩) (depth : Nat) :
    ∃ shared after, Run.execute (S := signature) rules (Run.fetch rules (depth + 1)) slot
      (.parseFile key) context = some (.ok (slot, shared), after) := by
  let pushed : Session := Context.pushFrame (S := signature) context slot .computing
  have pushedSound : pushed.cache.WellFormed := wellFormed
  have served : Run.fetch (S := signature) rules (depth + 1) (.fileText key.path) pushed =
      some (.ok (place, contents), _) :=
    Run.answer_eq_of_current (S := signature) (pushedSound.find?_eq there) known now
  have computed := (Frontend.evaluate_parseFile served rfl rfl rfl).trans
    (Frontend.evaluate_parseContents_eq key contents.value rfl rfl)
  exact ⟨_, _,
    Run.execute_eq (S := signature) (Context.cycle?_of_idle rules idle slot) computed rfl here⟩

/-- A tree that may be out of date is checked against the text. -/
theorem areUnchanged_fileText (wellFormed : context.cache.WellFormed)
    (there : context.cache.memo? place = some ⟨.fileText key.path, text⟩)
    (known : text.value = some contents) (now : text.verifiedAt = context.revision) (depth : Nat)
    (since : Revision) :
    Run.areUnchanged (S := signature) (Run.fetch rules (depth + 1)) since [place] context =
      some (.ok (decide (text.changedAt ≤ since)), Context.updateCache (S := signature)
        (Context.updateCache (S := signature) context Cache.countValidation) Cache.countHit) := by
  let counted : Session := Context.updateCache (S := signature) context Cache.countValidation
  have countedSound : counted.cache.WellFormed := wellFormed.counted _
  have served : Run.fetch (S := signature) rules (depth + 1) (.fileText key.path) counted =
      some (.ok (place, contents), Context.updateCache (S := signature) counted Cache.countHit) :=
    Run.answer_eq_of_current (S := signature) (countedSound.find?_eq there) known now
  let hit : Session := Context.updateCache (S := signature) counted Cache.countHit
  have again : hit.cache.memo? place = some ⟨.fileText key.path, text⟩ := there
  rw [Run.areUnchanged_cons there, Run.bind_of_eq served, Run.bind_of_eq (Run.memo_apply again)]
  by_cases unchanged : text.changedAt ≤ since
  · rw [if_neg (Nat.not_lt.mpr unchanged), decide_eq_true unchanged]
    rfl
  · rw [if_pos (Nat.lt_of_not_le unchanged), decide_eq_false unchanged]
    rfl

/-- A tree from an earlier revision is answered for: it is verified if the text has not changed since,
and computed anew if it has. -/
theorem IsLinked.exists_answer_of_older (linked : context.IsLinked key) (idle : context.active = [])
    (there : context.cache.memo? place = some ⟨.fileText key.path, text⟩)
    (known : text.value = some contents) (now : text.verifiedAt = context.revision)
    {entry : Entry signature (.parseFile key)}
    (older : Run.HasOlder (S := signature) context (.parseFile key) slot entry) (depth : Nat) :
    ∃ slot shared after, Run.answer (S := signature) rules (Run.fetch rules (depth + 1))
      (.parseFile key) context = some (.ok (slot, shared), after) := by
  have sound := linked.wellFormed
  have here := Cache.memo?_of_find? older.found
  obtain ⟨shared, value⟩ := Option.isSome_iff_exists.mp older.value
  obtain ⟨place', _, _, reads, there', -⟩ := linked.traces here older.derived value
  obtain rfl := sound.unique (Cache.query?_eq there) (Cache.query?_eq there')
  let pushed : Session := Context.pushFrame (S := signature) context slot .validating
  have pushedSound : pushed.cache.WellFormed := sound
  have checked := areUnchanged_fileText pushedSound there known now depth entry.verifiedAt
  rw [← reads] at checked
  by_cases unchanged : text.changedAt ≤ entry.verifiedAt
  · rw [decide_eq_true unchanged] at checked
    exact ⟨_, _, _, Run.answer_eq_of_checked older value rfl
      (Context.cycle?_of_idle rules idle slot) checked rfl⟩
  · rw [decide_eq_false unchanged] at checked
    let read : Session := Context.updateCache (S := signature)
      (Context.updateCache (S := signature) pushed Cache.countValidation) Cache.countHit
    let start : Session :=
      Context.truncate (S := signature) read (Context.depth (S := signature) context)
    have startIdle : start.active = [] := by
      simp [start, read, pushed, Context.truncate, Context.depth, Context.pushFrame,
        Context.updateCache, idle]
    have outdated : Run.isUpToDate (S := signature) (Run.fetch rules (depth + 1)) slot
        entry.verifiedAt context = some (.ok false, start) := by
      rw [Run.isUpToDate_eq here, checked]
      rfl
    have startSound : start.cache.WellFormed := (sound.counted _).counted read.cache.counts
    obtain ⟨shared, after, executed⟩ :=
      exists_execute_parseFile startIdle startSound there known now here depth
    have starts : Run.Starts (S := signature) rules (Run.fetch rules (depth + 1))
        (.parseFile key) context _ _ :=
      .changed older rfl (Context.cycle?_of_idle rules idle slot) outdated
    exact ⟨_, shared, after, starts.answer_eq.trans executed⟩

/-- The tree of a file that was not set is answered for when the text is known, whether it is there
and up to date or not. -/
theorem IsLinked.exists_fetch_parseFile (linked : session.IsLinked key) (regular : session.Regular)
    {contents : FileContents} (text : session.HasText key.path contents)
    (free : Cache.input? (S := signature) session.cache (.parseFile key) = none) (depth : Nat) :
    ∃ slot shared after, Run.fetch (S := signature) rules (depth + 2) (.parseFile key) session =
      some (.ok (slot, shared), after) := by
  have sound := linked.wellFormed
  have idle := regular.idle
  obtain ⟨place, text, there, known, now⟩ := text
  obtain ⟨read, known, -⟩ := Option.map_eq_some_iff.mp known
  cases found : session.cache.find? (.parseFile key) with
  | none =>
    let inserted := session.cache.insert (.parseFile key) .derived session.revision
    let start : Session := { session with cache := inserted.2 }
    have startSound : start.cache.WellFormed :=
      sound.insert (Cache.query?_ne_of_find? found) .derived session.revision
    have here := sound.memo?_insert_self (.parseFile key) .derived session.revision
    have there : start.cache.memo? place = some ⟨.fileText key.path, text⟩ :=
      Cache.memo?_insert_of_memo? sound _ there
    have startIdle : start.active = [] := idle
    obtain ⟨shared, after, executed⟩ :=
      exists_execute_parseFile startIdle startSound there known now here depth
    have starts : Run.Starts (S := signature) rules (Run.fetch rules (depth + 1)) (.parseFile key)
      session _ _ := .new found
    exact ⟨_, shared, after, starts.answer_eq.trans executed⟩
  | some result =>
    obtain ⟨slot, entry⟩ := result
    have here := Cache.memo?_of_find? found
    cases value : entry.value with
    | none =>
      obtain ⟨shared, after, executed⟩ :=
        exists_execute_parseFile idle sound there known now here depth
      have starts : Run.Starts (S := signature) rules (Run.fetch rules (depth + 1)) (.parseFile key)
        session _ _ := .unset found value
      exact ⟨_, shared, after, starts.answer_eq.trans executed⟩
    | some shared =>
      by_cases current : entry.verifiedAt = session.revision
      · exact ⟨_, _, _, Run.answer_eq_of_current found value current⟩
      have derived := Cache.derived_of_input?_eq_none sound free here value
      exact linked.exists_answer_of_older idle there known now
        ⟨found, by rw [value]; rfl, current, derived⟩ depth

end Request

/-- While the revision lasts, the text stays what it is. -/
theorem HasText.grow {path : Name} {contents : FileContents} {exact : Prop}
    (text : before.HasText path contents)
    (grows : before.cache.Grows exact before.revision [] after.cache)
    (revision : after.revision = before.revision) : after.HasText path contents := by
  obtain ⟨slot, entry, here, known, now⟩ := text
  have current : entry.IsCurrent before.revision := Entry.isCurrent_of_map known now
  exact ⟨slot, entry, grows.memo?_of_isCurrent here current, known, now.trans revision.symm⟩

/-- A request for the tree of a file with a known text gives what the text is parsed to. -/
theorem IsLinked.exists_request_parseFile (linked : session.IsLinked key) (regular : session.Regular)
    {contents : FileContents} (text : session.HasText key.path contents)
    (free : Cache.input? (S := signature) session.cache (.parseFile key) = none) :
    ∃ shared later slot entry, session.request (.parseFile key) = (.ok shared, later) ∧
      later.cache.memo? slot = some ⟨.parseFile key, entry⟩ ∧ entry.value = some shared ∧
      entry.verifiedAt = session.revision ∧ key.Parses later.names contents shared.value := by
  have sound := regular.reachable.sound
  obtain ⟨slot, shared, middle, fetched⟩ := linked.exists_fetch_parseFile regular text free
    (session.cache.slots.size + 4 * World.scriptSize session.world + 6)
  obtain ⟨_, ran⟩ := Context.exists_request_eq (S := signature) sound trivial fetched
  have answered := (Context.meets_request sound trivial).2 _ _ ran
  obtain ⟨slot, entry, _, here, value, now, -⟩ := answered.ok shared rfl
  have derived := Cache.derived_of_input?_eq_none answered.sound.accounted.wellFormed
    ((congrFun answered.cache.input? _).trans free) here value
  have known := Query.isKnown_parseFile key session.names
  have parses := (linked.run regular.idle ran).parses (regular.run known ran).1
    (text.grow answered.cache answered.revision) here derived value now
  exact ⟨shared, _, slot, entry, request_of_run ran, here, value, now.trans answered.revision, parses⟩

end Session

end IncrementalFrontend
