import IncrementalFrontend.Proofs.Frontend.FileTrees
import IncrementalFrontend.Proofs.Frontend.Independence

/-!
Trees of files and the texts that they come from. The memo of a tree depends on the memo of the
text alone, and unless the text has changed since the tree was verified, the tree is what the text
is parsed to.
-/
namespace IncrementalFrontend

open Frontend (Query World rules signature)

namespace Frontend

variable {path : Name} {revision : Revision}

theorem eq_of_isUnchanged_fileText {old new : FileContents}
    (unchanged : Query.isUnchanged (.fileText path) old new = true) : old = new := by
  cases old <;> cases new <;> simp_all [Query.isUnchanged]

/-- The text of a file that was read again is another one only if its memo says so. -/
theorem grows_recomputed_fileText {old : Entry signature (.fileText path)}
    (stale : ¬ old.IsCurrent revision) (earlier : old.verifiedAt ≤ revision)
    (shared : Shared FileContents) (frame : Frame) :
    old.Grows True revision (old.recomputed rules revision shared frame) where
  origin := rfl
  value _ := rfl
  verifiedAt := earlier
  current now := absurd now stale
  changed := by
    cases backdated : old.isBackdated rules shared.value with
    | false => exact .inl (by simp [Entry.recomputed, backdated])
    | true =>
      refine .inr ⟨by simp [Entry.recomputed, backdated], fun _ => ?_⟩
      unfold Entry.isBackdated at backdated
      obtain ⟨before, value, unchanged⟩ := Option.any_eq_true _ _ |>.mp backdated
      rw [value]
      exact congrArg some (eq_of_isUnchanged_fileText unchanged).symm

end Frontend

/-- Verifying an entry changes nothing else. -/
theorem Entry.grows_verified {S : Signature} {query : S.Query} (entry : Entry S query)
    {revision : Revision} (earlier : entry.verifiedAt ≤ revision) :
    entry.Grows True revision { entry with verifiedAt := revision } where
  origin := rfl
  value := id
  verifiedAt := earlier
  current now := by
    obtain ⟨-, rfl⟩ := now
    rfl
  changed := .inr ⟨rfl, fun _ => rfl⟩

theorem Cache.memo?_verify {S : Signature} {cache : Cache S} {slot : Nat} {query : S.Query}
    {entry : Entry S query} (here : cache.memo? slot = some ⟨query, entry⟩) (revision : Revision)
    (place : Nat) : (cache.verify slot revision).memo? place =
      if place = slot then some ⟨query, { entry with verifiedAt := revision }⟩
      else cache.memo? place := by
  rw [verify_eq here, memo?_put_of_live here]

/-- Replacing the memo of a query leaves those of the others. -/
theorem Cache.memo?_of_ne {S : Signature} {cache later : Cache S} {slot place : Nat}
    {own other : S.Query} {old : Entry S own} {entry : Entry S other} {new : Memo S}
    (here : cache.memo? slot = some ⟨own, old⟩)
    (replaced : later.memo? place = if place = slot then some new else cache.memo? place)
    (there : cache.memo? place = some ⟨other, entry⟩) (different : other ≠ own) :
    later.memo? place = some ⟨other, entry⟩ := by
  rw [replaced, if_neg, there]
  rintro rfl
  cases here.symm.trans there
  exact different rfl

namespace Cache

variable {cache : Cache signature} {names later : Interner} {key : FileKey} {slot : Nat}
  {entry : Entry signature (.parseFile key)} {tree : SyntaxTree} {query : Query}
  {revision : Revision}

/-- The tree of a memo is what the text is parsed to that the memo depends on, unless that text has
changed since. -/
def Traces (cache : Cache signature) (names : Interner) (key : FileKey)
    (entry : Entry signature (.parseFile key)) (tree : SyntaxTree) : Prop :=
  ∃ place text contents, entry.dependencies = [place] ∧
    cache.memo? place = some ⟨.fileText key.path, text⟩ ∧ text.value.isSome ∧
    entry.verifiedAt ≤ text.verifiedAt ∧ key.Parses names contents tree ∧
    (text.changedAt ≤ entry.verifiedAt → text.value.map (·.value) = some contents)

theorem Traces.mono (traces : cache.Traces names key entry tree) (keeps : names.Keeps later) :
    cache.Traces later key entry tree := by
  obtain ⟨place, text, contents, reads, there, isSome, order, parses, same⟩ := traces
  exact ⟨place, text, contents, reads, there, isSome, order, parses.mono keeps, same⟩

/-- The text stays what the tree was parsed from, or it is seen to have changed. -/
theorem Traces.put (traces : cache.Traces names key entry tree) {old new : Entry signature query}
    (here : cache.memo? slot = some ⟨query, old⟩) (earlier : old.verifiedAt ≤ revision)
    (grows : query = .fileText key.path → old.Grows True revision new) :
    (cache.put slot ⟨query, new⟩).Traces names key entry tree := by
  obtain ⟨place, text, contents, reads, there, isSome, order, parses, same⟩ := traces
  have put : (cache.put slot ⟨query, new⟩).memo? place =
    if place = slot then some ⟨query, new⟩ else cache.memo? place := memo?_put_of_live here place
  by_cases own : place = slot
  · subst own
    rw [there] at here
    cases here
    have grows := grows rfl
    refine ⟨place, new, contents, reads, by rw [put, if_pos rfl], grows.value isSome,
      Nat.le_trans order grows.verifiedAt, parses, fun unchanged => ?_⟩
    obtain changed | ⟨kept, values⟩ := grows.changed
    -- A text that changed in the revision was not verified in it before, and so was not the tree.
    · have now : text.verifiedAt = revision :=
        Nat.le_antisymm earlier (Nat.le_trans (changed ▸ unchanged) order)
      rw [grows.current ⟨isSome, now⟩] at unchanged ⊢
      exact same unchanged
    · exact (values trivial).trans (same (kept ▸ unchanged))
  · exact ⟨place, text, contents, reads, by rw [put, if_neg own, there], isSome, order, parses, same⟩

end Cache

namespace Session

variable {key : FileKey}

structure IsLinked (session : Session) (key : FileKey) : Prop where
  wellFormed : session.cache.WellFormed
  verifiedAt_le {slot : Nat} {query : Query} {entry : Entry signature query} :
    session.cache.memo? slot = some ⟨query, entry⟩ → entry.verifiedAt ≤ session.revision
  known : key.IsKnown session.names
  traces {slot : Nat} {entry : Entry signature (.parseFile key)} {shared : Shared SyntaxTree} :
    session.cache.memo? slot = some ⟨.parseFile key, entry⟩ → entry.origin = .derived →
      entry.value = some shared → session.cache.Traces session.names key entry shared.value

namespace IsLinked

variable {session before middle after : Session} {slot : Nat} {query : Query}

theorem grow (linked : session.IsLinked key) {world : World} (keeps : session.names.Keeps world.names) :
    IsLinked { session with world } key where
  wellFormed := linked.wellFormed
  verifiedAt_le := linked.verifiedAt_le
  known := linked.known.mono keeps
  traces here derived value := (linked.traces here derived value).mono keeps

theorem of_eq (linked : session.IsLinked key) (cache : after.cache = session.cache)
    (revision : after.revision = session.revision) (world : after.world = session.world) :
    after.IsLinked key := by
  obtain ⟨wellFormed, earlier, known, traces⟩ := linked
  rw [← cache, ← revision] at earlier
  unfold names at known traces
  rw [← world] at known traces
  rw [← cache] at wellFormed traces
  exact ⟨wellFormed, earlier, known, traces⟩

theorem recount (linked : session.IsLinked key) (counts : CacheCounts) :
    IsLinked { session with cache := { session.cache with counts } } key where
  wellFormed := linked.wellFormed.counted counts
  verifiedAt_le := linked.verifiedAt_le
  known := linked.known
  traces := linked.traces

/-- Only the tree of the file itself has to be accounted for when it is put. -/
theorem put (linked : session.IsLinked key) {old new : Entry signature query}
    (here : session.cache.memo? slot = some ⟨query, old⟩) (now : new.verifiedAt ≤ session.revision)
    (grows : query = .fileText key.path → old.Grows True session.revision new)
    (traces : ∀ (entry : Entry signature (.parseFile key)) shared,
      (⟨query, new⟩ : Memo signature) = ⟨.parseFile key, entry⟩ → entry.origin = .derived →
        entry.value = some shared → session.cache.Traces session.names key entry shared.value) :
    IsLinked { session with cache := session.cache.put slot ⟨query, new⟩ } key where
  wellFormed := linked.wellFormed.put here rfl
  verifiedAt_le {place other entry} there := by
    rw [Cache.memo?_put_of_live here] at there
    split at there
    · cases there
      exact now
    · exact linked.verifiedAt_le there
  known := linked.known
  traces {place entry shared} there derived value := by
    rw [Cache.memo?_put_of_live here] at there
    have traced : session.cache.Traces session.names key entry shared.value := by
      split at there
      · exact traces entry shared (Option.some.inj there) derived value
      · exact linked.traces there derived value
    exact traced.put here (linked.verifiedAt_le here) grows

/-- A query gets a slot without a value. -/
theorem insert (linked : session.IsLinked key)
    (absent : ∀ slot, session.cache.query? slot ≠ some query) :
    IsLinked { session with
      cache := (session.cache.insert query .derived session.revision).2 } key where
  wellFormed := linked.wellFormed.insert absent .derived session.revision
  verifiedAt_le {place other entry} there := by
    obtain new | old := Cache.memo?_of_memo?_insert linked.wellFormed _ there
    · cases new
      exact Nat.le_refl _
    · exact linked.verifiedAt_le old
  known := linked.known
  traces {place entry shared} there derived value := by
    obtain new | old := Cache.memo?_of_memo?_insert linked.wellFormed _ there
    · cases new
      cases value
    · obtain ⟨dependency, text, contents, reads, below, rest⟩ := linked.traces old derived value
      exact ⟨dependency, text, contents, reads,
        Cache.memo?_insert_of_memo? linked.wellFormed _ below, rest⟩

structure Leads (key : FileKey) (before after : Session) : Prop where
  linked : after.IsLinked key
  revision : after.revision = before.revision
  slots {slot : Nat} {query : Query} : before.cache.query? slot = some query →
    after.cache.query? slot = some query

theorem Leads.trans (first : Leads key before middle) (second : Leads key middle after) :
    Leads key before after :=
  ⟨second.linked, second.revision.trans first.revision, second.slots ∘ first.slots⟩

theorem leads (linked : session.IsLinked key) : Leads key session session :=
  ⟨linked, rfl, id⟩

structure Returns (key : FileKey) (before after : Session) : Prop extends Leads key before after where
  active : after.active = before.active

theorem Returns.trans (first : Returns key before middle) (second : Returns key middle after) :
    Returns key before after :=
  ⟨first.toLeads.trans second.toLeads, second.active.trans first.active⟩

theorem returns (linked : session.IsLinked key) : Returns key session session :=
  ⟨linked.leads, rfl⟩

/-- A memo may be verified unless it is that of the tree, and that if it is accounted for. -/
theorem returns_verify (linked : session.IsLinked key) {entry : Entry signature query}
    (here : session.cache.memo? slot = some ⟨query, entry⟩)
    (traces : ∀ (tree : Entry signature (.parseFile key)) shared,
      (⟨query, { entry with verifiedAt := session.revision }⟩ : Memo signature) =
          ⟨.parseFile key, tree⟩ →
        tree.origin = .derived → tree.value = some shared →
          session.cache.Traces session.names key tree shared.value) :
    Returns key session { session with cache := session.cache.verify slot session.revision } := by
  rw [Cache.verify_eq here]
  have same : (⟨query, { entry with verifiedAt := session.revision }⟩ : Memo signature).query =
    (⟨query, entry⟩ : Memo signature).query := rfl
  refine ⟨⟨linked.put here (Nat.le_refl _) (fun _ => ?_) traces, rfl, fun there => ?_⟩, rfl⟩
  · exact entry.grows_verified (linked.verifiedAt_le here)
  · exact (Cache.query?_put_of_live here same _).trans there

/-- A computed value is stored. -/
theorem Returns.stored (returns : Returns key before after) {query : signature.Query}
    {entry : Entry signature query} {value : signature.Value query} {frame : Frame}
    (here : after.cache.memo? slot = some ⟨query, entry⟩)
    (grows : query = Query.fileText key.path → entry.Grows True after.revision
      (entry.recomputed rules after.revision ⟨after.nextIdentity, value⟩ frame))
    (traces : ∀ (tree : Entry signature (.parseFile key)) shared,
      (⟨query, entry.recomputed rules after.revision ⟨after.nextIdentity, value⟩ frame⟩ :
        Memo signature) = ⟨.parseFile key, tree⟩ → tree.origin = .derived →
          tree.value = some shared → after.cache.Traces after.names key tree shared.value) :
    Returns key before (Context.stored after rules slot query entry value frame) := by
  let memo : Memo signature :=
    ⟨query, entry.recomputed rules after.revision ⟨after.nextIdentity, value⟩ frame⟩
  have put : IsLinked { after with cache := after.cache.put slot memo } key :=
    returns.linked.put here (Nat.le_refl _) grows traces
  have same : memo.query = (⟨query, entry⟩ : Memo signature).query := rfl
  refine ⟨⟨(put.recount _).of_eq rfl rfl rfl, returns.revision, fun there => ?_⟩, returns.active⟩
  exact (Cache.query?_put_of_live here same _).trans (returns.slots there)

structure Reads (key : FileKey) (path : Name) (before : Session)
    (outcome : Except QueryError (Nat × Shared FileContents)) (after : Session) : Prop
    extends Returns key before after where
  others {slot : Nat} {query : Query} {entry : Entry signature query} :
    before.cache.memo? slot = some ⟨query, entry⟩ → query ≠ .fileText path →
      after.cache.memo? slot = some ⟨query, entry⟩
  ok : ∀ slot shared, outcome = .ok (slot, shared) → ∃ entry,
    after.cache.memo? slot = some ⟨.fileText path, entry⟩ ∧ entry.value = some shared ∧
      entry.verifiedAt = after.revision
  world : after.world = before.world

variable {fetch : (query : signature.Query) → Run signature (Nat × Shared (signature.Value query))}
  {path : Name}

/-- A text that is read again is stored in its slot. -/
theorem meets_execute_fileText (linked : session.IsLinked key) {entry : Entry signature (.fileText path)}
    (here : session.cache.memo? slot = some ⟨.fileText path, entry⟩)
    (stale : ¬ entry.IsCurrent session.revision) :
    Run.Meets (S := signature) (Run.execute rules fetch slot (.fileText path)) session False
      (Reads key path session) := by
  cases cycle : Context.cycle? (S := signature) rules session slot with
  | some labels =>
    have failed : Run.execute (S := signature) rules fetch slot (.fileText path) session =
        some (.error (.cycle labels), session) := Run.execute_of_cycle cycle
    exact Run.meets_of_eq failed ⟨linked.returns, fun there _ => there, nofun, rfl⟩
  | none =>
    have stored : Returns key session (Context.stored (S := signature) session rules slot
        (.fileText path) entry (session.world.contents path) (.start slot .computing)) :=
      linked.returns.stored here (fun _ => Frontend.grows_recomputed_fileText stale
        (linked.verifiedAt_le here) _ _) nofun
    let memo : Memo signature := ⟨.fileText path, entry.recomputed rules session.revision
      ⟨session.nextIdentity, session.world.contents path⟩ (.start slot .computing)⟩
    have put (place : Nat) : (session.cache.put slot memo).memo? place = _ :=
      Cache.memo?_put_of_live here place
    refine Run.meets_of_eq (Frontend.execute_fileText cycle here)
      ⟨stored, Cache.memo?_of_ne here (put _), ?_, rfl⟩
    rintro _ _ ⟨⟩
    exact ⟨_, (put slot).trans (if_pos rfl), rfl, rfl⟩

/-- A text that was not asked for before gets a slot and is read. -/
theorem meets_execute_inserted (linked : session.IsLinked key)
    (absent : ∀ slot, session.cache.query? slot ≠ some (.fileText path)) :
    Run.Meets (S := signature) (Run.execute rules fetch
        (session.cache.insert (.fileText path) .derived session.revision).1 (.fileText path))
      { session with cache := (session.cache.insert (.fileText path) .derived session.revision).2 }
      False (Reads key path session) := by
  have here := linked.wellFormed.memo?_insert_self (.fileText path) .derived session.revision
  refine ((linked.insert absent).meets_execute_fileText here fun current => by cases current.1).mono ?_
  rintro outcome after ⟨⟨leads, active⟩, others, ok, world⟩
  have kept {place : Nat} {query : Query} {entry : Entry signature query}
      (there : session.cache.memo? place = some ⟨query, entry⟩) :
      (session.cache.insert (.fileText path) .derived session.revision).2.memo? place =
        some ⟨query, entry⟩ :=
    Cache.memo?_insert_of_memo? linked.wellFormed _ there
  refine ⟨⟨⟨leads.linked, leads.revision, fun there => leads.slots ?_⟩, active⟩,
    fun there => others (kept there), ok, world⟩
  obtain ⟨entry, there⟩ := Cache.memo?_of_query? there
  exact Cache.query?_eq (kept there)

/-- A text that was set is verified without being read. -/
theorem reads_verify (linked : session.IsLinked key) {entry : Entry signature (.fileText path)}
    {shared : Shared FileContents} (here : session.cache.memo? slot = some ⟨.fileText path, entry⟩)
    (value : entry.value = some shared) :
    Reads key path session (.ok (slot, shared))
      { session with cache := session.cache.verify slot session.revision } := by
  have memos := Cache.memo?_verify here session.revision
  refine ⟨linked.returns_verify here (fun _ _ same => by cases same),
    Cache.memo?_of_ne here (memos _), ?_, rfl⟩
  rintro _ _ ⟨⟩
  exact ⟨_, (memos slot).trans (if_pos rfl), value, rfl⟩

theorem meets_answer_fileText (linked : session.IsLinked key) (path : Name) :
    Run.Meets (S := signature) (Run.answer rules fetch (.fileText path)) session False
      (Reads key path session) := by
  unfold Run.answer
  refine Run.meets_get_bind ?_
  split
  · rename_i absent
    exact Run.Meets.congr
      (linked.meets_execute_inserted (Cache.query?_ne_of_find? absent)) rfl
  · rename_i slot entry found
    have here := Cache.memo?_of_find? found
    split
    · rename_i none
      exact linked.meets_execute_fileText here (by simp [Entry.IsCurrent, none])
    · rename_i shared value
      unfold Run.fromMemo
      refine Run.meets_get_bind ?_
      by_cases now : entry.verifiedAt = session.revision
      · rw [if_pos now]
        refine Run.meets_updateCache_bind (Run.meets_pure ⟨⟨⟨linked.recount _, rfl, id⟩, rfl⟩,
          fun there _ => there, ?_, rfl⟩)
        rintro _ _ ⟨⟩
        exact ⟨entry, here, value, now⟩
      rw [if_neg now]
      by_cases isInput : entry.origin = .input
      · rw [if_pos isInput]
        exact Run.meets_updateCache_bind (Run.meets_pure (linked.reads_verify here value))
      rw [if_neg isInput]
      have isVolatile : rules.isVolatile (.fileText path) = true := rfl
      rw [if_pos isVolatile]
      exact linked.meets_execute_fileText here fun current => now current.2

structure Serves (key : FileKey)
    (fetch : (query : signature.Query) → Run signature (Nat × Shared (signature.Value query))) :
    Prop where
  all (query : signature.Query) {context : Session} : context.IsLinked key →
    (fetch query).Meets context False fun _ => Returns key context
  text (path : Name) {context : Session} : context.IsLinked key →
    Run.Meets (S := signature) (fetch (.fileText path)) context False (Reads key path context)

section Serves

variable (serves : Serves key fetch) {context : Session} {outer : List Frame} {reads : List Nat}
  {reports : List Diagnostic}

include serves

theorem meets_access_linked {query : signature.Query} (linked : context.IsLinked key)
    (active : context.active = ⟨slot, .computing, reads, reports⟩ :: outer) :
    (Run.access fetch query).Meets context False fun _ after => Leads key context after ∧
      ∃ reads, after.active = ⟨slot, .computing, reads, reports⟩ :: outer := by
  have inQuery : Context.isInQuery (S := signature) context = true := by
    simp [Context.isInQuery, active]
  unfold Run.access
  refine Run.meets_get_bind (Run.meets_bind ((serves.all query linked).mono ?_))
  rintro (error | ⟨place, shared⟩) after ⟨leads, same⟩
  · exact ⟨leads, reads, same.trans active⟩
  · simp only [inQuery, if_true]
    have frames := same.trans active
    have recorded : Context.recordRead (S := signature) after place = { after with
        active := Frame.addRead ⟨slot, .computing, reads, reports⟩ place :: outer } := by
      simp [Context.recordRead, frames]
    refine Run.meets_modify_bind (Run.meets_pure ?_)
    rw [recorded]
    refine ⟨⟨leads.linked.of_eq rfl rfl rfl, leads.revision, leads.slots⟩, ?_⟩
    unfold Frame.addRead
    split
    · exact ⟨_, rfl⟩
    · exact ⟨_, rfl⟩

theorem meets_evaluate_linked {α : Type} {computation : Computation signature α}
    (linked : context.IsLinked key)
    (active : context.active = ⟨slot, .computing, reads, reports⟩ :: outer) :
    (Run.evaluate rules fetch computation).Meets context False fun _ after =>
      Leads key context after ∧
        ∃ reads reports, after.active = ⟨slot, .computing, reads, reports⟩ :: outer := by
  induction computation generalizing context reads reports with
  | pure result => exact Run.meets_pure ⟨linked.leads, reads, reports, active⟩
  | fail error => exact Run.meets_throw ⟨linked.leads, reads, reports, active⟩
  | read other next ih =>
    refine Run.meets_attempt_bind ((meets_access_linked serves linked active).mono ?_)
    rintro outcome middle ⟨leads, reads, active⟩
    refine (ih _ leads.linked active).mono ?_
    rintro outcome after ⟨leads', rest⟩
    exact ⟨leads.trans leads', rest⟩
  | ask request next ih =>
    have grown := linked.grow (Frontend.naming.serve request context.world)
    refine Run.meets_serve_bind ((ih _ grown active).mono ?_)
    rintro outcome after ⟨⟨linked', revision, slots⟩, rest⟩
    exact ⟨⟨linked', revision, slots⟩, rest⟩
  | report diagnostic next ih =>
    have reported : Context.report (S := signature) context diagnostic =
        { context with active := ⟨slot, .computing, reads, reports ++ [diagnostic]⟩ :: outer } := by
      simp [Context.report, active, Context.addToFrames, Frame.addDiagnostic]
    have linked : IsLinked { context with
        active := ⟨slot, .computing, reads, reports ++ [diagnostic]⟩ :: outer } key :=
      linked.of_eq rfl rfl rfl
    refine Run.meets_modify_bind ?_
    rw [reported]
    refine (ih linked rfl).mono ?_
    rintro outcome after ⟨⟨linked', revision, slots⟩, rest⟩
    exact ⟨⟨linked', revision, slots⟩, rest⟩

/-- Other queries store nothing that concerns the file. -/
theorem meets_execute_linked {query : signature.Query} (linked : context.IsLinked key)
    (other : query ≠ Query.parseFile key) (plain : query ≠ Query.fileText key.path) :
    (Run.execute rules fetch slot query).Meets context False fun _ => Returns key context := by
  have linked' : IsLinked (Context.pushFrame (S := signature) context slot .computing) key :=
    linked.of_eq rfl rfl rfl
  unfold Run.execute
  refine Run.meets_checkCycle_bind (fun _ _ => linked.returns) fun _ => ?_
  refine Run.meets_get_bind (Run.meets_modify_bind (Run.meets_attempt_bind ?_))
  refine (meets_evaluate_linked serves linked' rfl).mono ?_
  rintro outcome after ⟨leads, reads, reports, active⟩
  have returns : Returns key context { after with active := context.active } :=
    ⟨⟨leads.linked.of_eq rfl rfl rfl, leads.revision, leads.slots⟩, rfl⟩
  refine Run.meets_popFrame_bind active (Run.meets_ofExcept_bind ?_ ?_)
  · rintro error rfl
    exact returns
  · rintro value rfl
    refine Run.meets_storeResult_bind returns fun entry here => Run.meets_pure ?_
    exact returns.stored here (fun same => absurd same plain)
      fun _ _ same => absurd (congrArg Memo.query same) other

/-- The computation of a tree reads the text and parses it. -/
theorem meets_evaluate_parseFile (linked : context.IsLinked key)
    (active : context.active = .start slot .computing :: outer) :
    Run.Meets (S := signature) (Run.evaluate rules fetch (rules.compute (.parseFile key))) context False
      fun outcome (after : Session) => Leads key context after ∧
        (∃ reads reports, after.active = ⟨slot, .computing, reads, reports⟩ :: outer) ∧
        ∀ tree, outcome = .ok tree → ∃ place text shared reports,
          after.active = ⟨slot, .computing, [place], reports⟩ :: outer ∧
            after.cache.memo? place = some ⟨.fileText key.path, text⟩ ∧ text.value = some shared ∧
            text.verifiedAt = after.revision ∧ key.Parses after.names shared.value tree := by
  have inQuery : Context.isInQuery (S := signature) context = true := by
    simp [Context.isInQuery, active]
  obtain ⟨-, reads⟩ := serves.text key.path linked
  rw [Frontend.compute_parseFile]
  cases served : fetch (.fileText key.path) context with
  | none =>
    have stuck : Run.evaluate (S := signature) rules fetch
        (Computation.value (S := signature) (.fileText key.path) >>=
          Frontend.Compute.parseContents key) context = none :=
      Run.evaluate_read_of_none (S := signature) served
    exact ⟨False.elim, fun _ _ ran => by cases stuck.symm.trans ran⟩
  | some result =>
    obtain ⟨outcome, (after : Session)⟩ := result
    obtain ⟨⟨leads, same⟩, others, ok, world⟩ := reads _ _ served
    have frames := same.trans active
    cases outcome with
    | error error =>
      have failed : Run.evaluate (S := signature) rules fetch
          (Computation.value (S := signature) (.fileText key.path) >>=
            Frontend.Compute.parseContents key) context = some (.error error, after) :=
        Run.evaluate_read_of_error (S := signature) served
      exact Run.meets_of_eq failed ⟨leads, ⟨[], [], frames⟩, fun _ ended => by cases ended⟩
    | ok result =>
      obtain ⟨place, shared⟩ := result
      obtain ⟨text, there, value, now⟩ := ok place shared rfl
      have parsed := Run.evaluate_value (S := signature) served inQuery frames rfl
        |>.trans (Frontend.evaluate_parseContents_eq key shared.value rfl rfl)
      let world : World := { after.world with names := (key.parsed shared.value after.names).2 }
      have grown : IsLinked { after with world } key :=
        leads.linked.grow (key.keeps_parsed shared.value after.names)
      refine Run.meets_of_eq parsed ⟨⟨grown.of_eq rfl rfl rfl, leads.revision, leads.slots⟩,
        ⟨_, _, rfl⟩, ?_⟩
      rintro tree ⟨⟩
      exact ⟨place, text, shared, _, rfl, there, value, now, after.names, leads.linked.known,
        .refl _, rfl⟩

/-- The tree is stored with the slot of the text that it was parsed from. -/
theorem meets_execute_parseFile (linked : context.IsLinked key) :
    Run.Meets (S := signature) (Run.execute rules fetch slot (.parseFile key)) context False
      fun _ => Returns key context := by
  have linked' : IsLinked (Context.pushFrame (S := signature) context slot .computing) key :=
    linked.of_eq rfl rfl rfl
  unfold Run.execute
  refine Run.meets_checkCycle_bind (fun _ _ => linked.returns) fun _ => ?_
  refine Run.meets_get_bind (Run.meets_modify_bind (Run.meets_attempt_bind ?_))
  refine (meets_evaluate_parseFile serves linked' rfl).mono ?_
  rintro outcome after ⟨leads, ⟨reads, reports, active⟩, parsed⟩
  have returns : Returns key context { after with active := context.active } :=
    ⟨⟨leads.linked.of_eq rfl rfl rfl, leads.revision, leads.slots⟩, rfl⟩
  refine Run.meets_popFrame_bind active (Run.meets_ofExcept_bind ?_ ?_)
  · rintro error rfl
    exact returns
  · rintro tree rfl
    obtain ⟨place, text, shared, reports', frames, there, value, now, parses⟩ := parsed tree rfl
    obtain ⟨rfl, rfl⟩ : reads = [place] ∧ reports = reports' := by
      simpa using active.symm.trans frames
    refine Run.meets_storeResult_bind returns fun entry here => Run.meets_pure ?_
    refine returns.stored here nofun ?_
    rintro _ stored ⟨⟩ - ⟨⟩
    exact ⟨place, text, shared.value, rfl, there, by rw [value]; rfl, Nat.le_of_eq now.symm, parses,
      fun _ => by rw [value]; rfl⟩

/-- The text that a tree depends on is read before the tree is taken to be up to date. -/
theorem meets_areUnchanged_parseFile (linked : context.IsLinked key)
    {entry : Entry signature (.parseFile key)} {shared : Shared SyntaxTree}
    (here : context.cache.memo? slot = some ⟨.parseFile key, entry⟩)
    (derived : entry.origin = .derived) (value : entry.value = some shared) :
    Run.Meets (S := signature) (Run.areUnchanged fetch entry.verifiedAt entry.dependencies) context
      False fun outcome (after : Session) => Returns key context after ∧
        after.cache.memo? slot = some ⟨.parseFile key, entry⟩ ∧
        (outcome = .ok true → after.cache.Traces after.names key
          { entry with verifiedAt := after.revision } shared.value) := by
  obtain ⟨place, text, _, reads, there, -⟩ := linked.traces here derived value
  have counted : IsLinked (Context.updateCache (S := signature) context Cache.countValidation) key :=
    (linked.recount _).of_eq rfl rfl rfl
  rw [reads]
  unfold Run.areUnchanged
  refine Run.meets_updateCache_bind (Run.meets_memo_bind there (Run.meets_bind ?_))
  refine (serves.text key.path counted).mono ?_
  rintro (error | ⟨place', read⟩) after ⟨⟨⟨linked', revision, slots⟩, active⟩, others, ok, world⟩ <;>
    have returns : Returns key context after := ⟨⟨linked', revision, slots⟩, active⟩ <;>
    have here' := others here fun same => by cases same
  · exact ⟨returns, here', fun upToDate => by cases upToDate⟩
  · obtain ⟨text', there', value', now⟩ := ok place' read rfl
    obtain rfl := linked'.wellFormed.unique (Cache.query?_eq there') (slots (Cache.query?_eq there))
    refine Run.meets_memo_bind there' ?_
    by_cases newer : entry.verifiedAt < text'.changedAt
    · rw [if_pos newer]
      exact Run.meets_pure ⟨returns, here', fun upToDate => by cases upToDate⟩
    · rw [if_neg newer]
      refine Run.meets_pure ⟨returns, here', fun _ => ?_⟩
      obtain ⟨_, _, contents, reads', there'', isSome, -, parses, same⟩ :=
        linked'.traces here' derived value
      obtain rfl := List.head_eq_of_cons_eq (reads.symm.trans reads')
      cases there'.symm.trans there''
      exact ⟨place', text', contents, rfl, there', isSome, Nat.le_of_eq now.symm, parses,
        fun _ => same (Nat.le_of_not_lt newer)⟩

/-- Other queries are checked by requests that keep the tree linked. -/
theorem meets_areUnchanged_linked (since : Revision) (slots : List Nat) (linked : context.IsLinked key) :
    (Run.areUnchanged fetch since slots).Meets context False fun _ => Returns key context := by
  induction slots generalizing context with
  | nil => exact Run.meets_pure linked.returns
  | cons place rest ih =>
    have counted : Returns key context
        (Context.updateCache (S := signature) context Cache.countValidation) :=
      ⟨⟨(linked.recount _).of_eq rfl rfl rfl, rfl, id⟩, rfl⟩
    unfold Run.areUnchanged
    refine Run.meets_updateCache_bind (Run.meets_memo?_bind counted fun memo _ => ?_)
    refine Run.meets_bind ((serves.all memo.query counted.linked).mono ?_)
    rintro (error | ⟨place, shared⟩) after returns
    · exact counted.trans returns
    · have returns := counted.trans returns
      refine Run.meets_memo?_bind returns fun memo _ => ?_
      split
      · exact Run.meets_pure returns
      · exact (ih returns.linked).mono fun _ _ returns' => returns.trans returns'

omit serves in
/-- A check runs in a frame of its own. -/
theorem meets_isUpToDate_linked {since : Revision} {memo : Memo signature}
    {post : Except QueryError Bool → Session → Prop} (here : context.cache.memo? slot = some memo)
    (checked : (Run.areUnchanged fetch since memo.entry.dependencies).Meets
      (Context.pushFrame (S := signature) context slot .validating) False fun outcome after =>
        Returns key (Context.pushFrame (S := signature) context slot .validating) after ∧
          post outcome { after with active := context.active }) :
    (Run.isUpToDate fetch slot since).Meets context False fun outcome after =>
      Returns key context after ∧ post outcome after := by
  unfold Run.isUpToDate
  refine Run.meets_memo_bind here (Run.meets_get_bind (Run.meets_modify_bind ?_))
  refine Run.meets_attempt_bind (checked.mono ?_)
  rintro outcome after ⟨⟨⟨linked, revision, slots⟩, active⟩, ends⟩
  have truncated : Context.truncate (S := signature) after (Context.depth (S := signature) context) =
      { after with active := context.active } := by
    simp [Context.truncate, Context.depth, active, Context.pushFrame]
  have returns : Returns key context { after with active := context.active } :=
    ⟨⟨linked.of_eq rfl rfl rfl, revision, slots⟩, rfl⟩
  refine Run.meets_modify_bind ?_
  rw [truncated]
  cases outcome with
  | ok isUnchanged => exact Run.meets_pure ⟨returns, ends⟩
  | error error => exact Run.meets_throw ⟨returns, ends⟩

/-- What is found up to date may be verified. -/
theorem meets_isUpToDate {query : signature.Query} (linked : context.IsLinked key)
    {entry : Entry signature query} {shared : Shared (signature.Value query)}
    (here : context.cache.memo? slot = some ⟨query, entry⟩) (derived : entry.origin = .derived)
    (value : entry.value = some shared) :
    (Run.isUpToDate fetch slot entry.verifiedAt).Meets context False fun outcome (after : Session) =>
      Returns key context after ∧ (outcome = .ok true →
        Returns key after { after with cache := after.cache.verify slot after.revision }) := by
  have linked' : IsLinked (Context.pushFrame (S := signature) context slot .validating) key :=
    linked.of_eq rfl rfl rfl
  refine meets_isUpToDate_linked here ?_
  by_cases own : query = Query.parseFile key
  · subst own
    refine (meets_areUnchanged_parseFile serves linked' here derived value).mono ?_
    rintro outcome after ⟨returns, here', traces⟩
    refine ⟨returns, fun upToDate => ?_⟩
    have popped : IsLinked { after with active := context.active } key :=
      returns.linked.of_eq rfl rfl rfl
    refine popped.returns_verify here' ?_
    rintro _ shared' ⟨⟩ - value'
    cases value.symm.trans value'
    exact traces upToDate
  · refine (meets_areUnchanged_linked serves entry.verifiedAt _ linked').mono ?_
    intro outcome after returns
    refine ⟨returns, fun _ => ?_⟩
    have popped : IsLinked { after with active := context.active } key :=
      returns.linked.of_eq rfl rfl rfl
    obtain ⟨entry', here'⟩ := Cache.memo?_of_query? (returns.slots (Cache.query?_eq here))
    exact popped.returns_verify here' fun _ _ same => absurd (congrArg Memo.query same) own

theorem meets_execute {query : signature.Query} (linked : context.IsLinked key)
    (plain : query ≠ Query.fileText key.path) :
    (Run.execute rules fetch slot query).Meets context False fun _ => Returns key context := by
  by_cases own : query = Query.parseFile key
  · subst own
    exact meets_execute_parseFile serves linked
  · exact meets_execute_linked serves linked own plain

theorem meets_fromMemo {query : signature.Query} (linked : context.IsLinked key)
    (plain : query ≠ Query.fileText key.path) {entry : Entry signature query}
    {shared : Shared (signature.Value query)}
    (here : context.cache.memo? slot = some ⟨query, entry⟩) (value : entry.value = some shared) :
    (Run.fromMemo rules fetch slot query entry shared).Meets context False
      fun _ => Returns key context := by
  unfold Run.fromMemo
  refine Run.meets_get_bind ?_
  by_cases now : entry.verifiedAt = context.revision
  · rw [if_pos now]
    exact Run.meets_updateCache_bind (Run.meets_pure ⟨⟨linked.recount _, rfl, id⟩, rfl⟩)
  rw [if_neg now]
  by_cases isInput : entry.origin = .input
  · rw [if_pos isInput]
    refine Run.meets_updateCache_bind (Run.meets_pure (linked.returns_verify here ?_))
    rintro _ _ ⟨⟩ derived -
    cases isInput.symm.trans derived
  rw [if_neg isInput]
  by_cases isVolatile : rules.isVolatile query
  · rw [if_pos isVolatile]
    exact meets_execute serves linked plain
  rw [if_neg isVolatile]
  have derived : entry.origin = .derived := by
    cases origin : entry.origin with
    | derived => rfl
    | input => exact absurd origin isInput
  refine Run.meets_checkCycle_bind (fun _ _ => linked.returns) fun _ => ?_
  refine Run.meets_bind ((meets_isUpToDate serves linked here derived value).mono ?_)
  rintro (error | isUnchanged) after ⟨returns, verified⟩
  · exact returns
  · dsimp only
    split
    · rename_i upToDate
      have same : Context.updateCache (S := signature) after (·.verify slot context.revision) =
          { after with cache := after.cache.verify slot after.revision } :=
        congrArg (fun revision => Context.updateCache (S := signature) after (·.verify slot revision))
          returns.revision.symm
      refine Run.meets_updateCache_bind (Run.meets_pure (returns.trans ?_))
      rw [same]
      exact verified (congrArg Except.ok upToDate)
    · exact (meets_execute serves returns.linked plain).mono
        fun _ _ returns' => returns.trans returns'

theorem meets_answer {query : signature.Query} (linked : context.IsLinked key)
    (plain : query ≠ Query.fileText key.path) :
    (Run.answer rules fetch query).Meets context False fun _ => Returns key context := by
  unfold Run.answer
  refine Run.meets_get_bind ?_
  split
  · rename_i absent
    have absent := Cache.query?_ne_of_find? absent
    let inserted : Session := { context with
      cache := (context.cache.insert query .derived context.revision).2 }
    have isLinked : inserted.IsLinked key := linked.insert absent
    have executes (slot : Nat) : (Run.execute rules fetch slot query).Meets inserted False _ :=
      meets_execute serves isLinked plain
    refine Run.Meets.congr ((executes _).mono ?_) rfl
    rintro outcome after ⟨⟨linked', revision, slots⟩, active⟩
    refine ⟨⟨linked', revision, fun there => slots ?_⟩, active⟩
    obtain ⟨entry, there⟩ := Cache.memo?_of_query? there
    exact Cache.query?_eq (Cache.memo?_insert_of_memo? linked.wellFormed _ there)
  · rename_i found
    split
    · exact meets_execute serves linked plain
    · rename_i value
      exact meets_fromMemo serves linked plain (Cache.memo?_of_find? found) value

end Serves

/-- However deep requests nest, they keep the tree linked to its text. -/
theorem serves_fetch_linked (key : FileKey) (depth : Nat) :
    Serves key (Run.fetch (S := signature) rules depth) := by
  induction depth with
  | zero => exact ⟨fun _ _ _ => Run.meets_exhausted id, fun _ _ _ => Run.meets_exhausted id⟩
  | succ depth ih =>
    have text (path : Name) {context : Session} (linked : context.IsLinked key) :
        Run.Meets (S := signature) (Run.fetch rules (depth + 1) (.fileText path)) context False
          (Reads key path context) := linked.meets_answer_fileText path
    refine ⟨fun query context linked => ?_, text⟩
    by_cases plain : query = Query.fileText key.path
    · subst plain
      exact (text key.path linked).mono fun _ _ reads => reads.toReturns
    · exact meets_answer ih linked plain

end IsLinked

end Session

end IncrementalFrontend
