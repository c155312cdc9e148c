import IncrementalFrontend.CommandLine.Run
import IncrementalFrontend.Proofs.Incremental.Delivery
import IncrementalFrontend.Proofs.Frontend.Parsing

/-!
Rounds over files. A session that does nothing but parse files keeps two memos for each of them, one
for its text and one for its tree.
-/
namespace IncrementalFrontend

open Frontend (Query World rules signature)

def FileKey.parsed (key : FileKey) (contents : FileContents) (names : Interner) :
    ParsedText × Interner :=
  let (unit, names) := SourceUnit.ofPath key.path key.parent names
  match contents with
  | .ok text => unit.parse text names
  | .error message => (⟨.blank unit, [.unreadableFile (.file key.path) message]⟩, names)

namespace Frontend.World

def contents (world : World) (path : Name) : FileContents :=
  (world.files (world.names.lookup path)).mapError fun reason =>
    "cannot read `" ++ world.names.lookup path ++ "`: " ++ reason

def parsed (world : World) (key : FileKey) : ParsedText × Interner :=
  let (unit, names) := SourceUnit.ofPath key.path key.parent world.names
  match world.contents key.path with
  | .ok text => unit.parse text names
  | .error message => (⟨.blank unit, [.unreadableFile (.file key.path) message]⟩, names)

/-- More names do not change the text of a file whose path is known. -/
theorem contents_of_keeps {world : World} {names : Interner} {path : Name} {text : String}
    (keeps : world.names.Keeps names) (found : world.names.find? text = some path) :
    ({ world with names } : World).contents path = world.contents path := by
  simp only [contents, Interner.lookup_of_find? found, Interner.lookup_of_find? (keeps _ _ found)]

end Frontend.World

namespace Frontend

def textEntry (path : Name) (contents : FileContents) (identity : Nat)
    (changedAt verifiedAt : Revision) (executions : Nat) : Entry signature (.fileText path) :=
  ⟨some ⟨identity, contents⟩, .derived, changedAt, verifiedAt, [], [], executions⟩

def treeEntry (key : FileKey) (parsed : ParsedText) (textSlot identity : Nat)
    (changedAt verifiedAt : Revision) (executions : Nat) : Entry signature (.parseFile key) :=
  ⟨some ⟨identity, parsed.tree⟩, .derived, changedAt, verifiedAt, [textSlot], parsed.diagnostics,
    executions⟩

theorem isUnchanged_fileText_iff {path : Name} {old new : FileContents} :
    Query.isUnchanged (.fileText path) old new = true ↔ old = new := by
  cases old <;> cases new <;> simp [Query.isUnchanged]

variable {fetch : (query : signature.Query) → Run signature (Nat × Shared (signature.Value query))}
  {context : Session} {slot : Nat} {frame : Frame} {outer : List Frame}

theorem execute_fileText {path : Name} {entry : Entry signature (.fileText path)}
    (fresh : Context.cycle? (S := signature) rules context slot = none)
    (here : context.cache.memo? slot = some ⟨.fileText path, entry⟩) :
    Run.execute (S := signature) rules fetch slot (.fileText path) context =
      some (.ok (slot, ⟨context.nextIdentity, context.world.contents path⟩),
        Context.stored (S := signature) context rules slot (.fileText path) entry
          (context.world.contents path) (.start slot .computing)) := by
  have computed : Run.evaluate (S := signature) rules fetch (rules.compute (.fileText path))
      (Context.pushFrame (S := signature) context slot .computing) =
        some (.ok (context.world.contents path),
          Context.pushFrame (S := signature) context slot .computing) := rfl
  have ran := Run.execute_eq (S := signature) fresh computed rfl here
  exact ran

/-- The text of a file is read again in each revision; if it is the same, it counts as no change. -/
theorem fetch_fileText_older {path : Name} {identity : Nat} {changedAt verifiedAt : Revision}
    {executions : Nat} (sound : context.cache.WellFormed)
    (fresh : Context.cycle? (S := signature) rules context slot = none)
    (here : context.cache.memo? slot = some ⟨.fileText path,
      textEntry path (context.world.contents path) identity changedAt verifiedAt executions⟩)
    (older : verifiedAt ≠ context.revision) (depth : Nat) :
    Run.fetch (S := signature) rules (depth + 1) (.fileText path) context =
      some (.ok (slot, ⟨context.nextIdentity, context.world.contents path⟩), { context with
        cache := (context.cache.put slot ⟨.fileText path, textEntry path
          (context.world.contents path) context.nextIdentity changedAt context.revision
          (executions + 1)⟩).countExecution true
        nextIdentity := context.nextIdentity + 1 }) := by
  have starts : Run.Starts (S := signature) rules (Run.fetch rules depth) (.fileText path) context
      slot context := .volatile ⟨sound.find?_eq here, rfl, older, rfl⟩ rfl
  refine starts.answer_eq.trans ((execute_fileText fresh here).trans ?_)
  have unchanged : Query.isUnchanged (.fileText path) (context.world.contents path)
      (context.world.contents path) = true := isUnchanged_fileText_iff.mpr rfl
  have backdated : Entry.isBackdated (S := signature) rules
      (textEntry path (context.world.contents path) identity changedAt verifiedAt executions)
      (context.world.contents path) = true := unchanged
  unfold Context.stored Entry.recomputed
  rw [backdated]
  rfl

/-- The text of a file is read when it is first needed. -/
theorem fetch_fileText_new {path : Name} (sound : context.cache.WellFormed)
    (absent : context.cache.find? (.fileText path) = none)
    (fresh : Context.cycle? (S := signature) rules { context with
      cache := (context.cache.insert (.fileText path) .derived context.revision).2 }
      (context.cache.insert (.fileText path) .derived context.revision).1 = none) (depth : Nat) :
    let inserted := context.cache.insert (.fileText path) .derived context.revision
    Run.fetch (S := signature) rules (depth + 1) (.fileText path) context =
      some (.ok (inserted.1, ⟨context.nextIdentity, context.world.contents path⟩), { context with
        cache := (inserted.2.put inserted.1 ⟨.fileText path, textEntry path
          (context.world.contents path) context.nextIdentity context.revision context.revision
          1⟩).countExecution false
        nextIdentity := context.nextIdentity + 1 }) := by
  have here := (sound.memo?_insert (.fileText path) .derived context.revision _).trans (if_pos rfl)
  have starts : Run.Starts (S := signature) rules (Run.fetch rules depth) (.fileText path) context
      _ _ := .new absent
  exact starts.answer_eq.trans (execute_fileText fresh here)

def Compute.parseContents (key : FileKey) (contents : FileContents) : Compute SyntaxTree := do
  let unit ← Compute.world (.unit key.path key.parent)
  match contents with
  | .ok text => Compute.parse unit text
  | .error message =>
    Computation.tell (.unreadableFile (.file key.path) message)
    return .blank unit

/-- A file is parsed from its text, which the computation reads first. -/
theorem compute_parseFile (key : FileKey) : rules.compute (.parseFile key) =
    Computation.value (S := signature) (.fileText key.path) >>= Compute.parseContents key := by
  show (Compute.query (.fileText key.path) >>= _) = _
  unfold Compute.query
  congr 1
  funext contents
  cases contents <;> rfl

theorem evaluate_parseFile {key : FileKey} {shared : Shared FileContents} {after : Session}
    (served : fetch (.fileText key.path) context = some (.ok (slot, shared), after))
    (inQuery : Context.isInQuery (S := signature) context = true)
    (active : after.active = frame :: outer) (computing : frame.phase = .computing) :
    Run.evaluate (S := signature) rules fetch (rules.compute (.parseFile key)) context =
      Run.evaluate (S := signature) rules fetch (Compute.parseContents key shared.value)
        { after with active := frame.addRead slot :: outer } := by
  rw [compute_parseFile]
  exact Run.evaluate_value (S := signature) served inQuery active computing

theorem evaluate_parseContents_eq (key : FileKey) (contents : FileContents)
    (active : context.active = frame :: outer) (computing : frame.phase = .computing) :
    Run.evaluate (S := signature) rules fetch (Compute.parseContents key contents) context =
      some (.ok (key.parsed contents context.world.names).1.tree, { context with
        active := { frame with diagnostics :=
          frame.diagnostics ++ (key.parsed contents context.world.names).1.diagnostics } :: outer
        world := { context.world with names := (key.parsed contents context.world.names).2 } }) := by
  let unit := SourceUnit.ofPath key.path key.parent context.world.names
  let named : Session := { context with world := { context.world with names := unit.2 } }
  have active : named.active = frame :: outer := active
  cases contents with
  | ok text => exact evaluate_parse unit.1 text active computing
  | error message => exact Run.evaluate_report (S := signature) active computing

theorem evaluate_parseContents (key : FileKey) (active : context.active = frame :: outer)
    (computing : frame.phase = .computing) :
    Run.evaluate (S := signature) rules fetch
        (Compute.parseContents key (context.world.contents key.path)) context =
      some (.ok (context.world.parsed key).1.tree, { context with
        active := { frame with
          diagnostics := frame.diagnostics ++ (context.world.parsed key).1.diagnostics } :: outer
        world := { context.world with names := (context.world.parsed key).2 } }) :=
  evaluate_parseContents_eq key (context.world.contents key.path) active computing

end Frontend

namespace Session

/-- The session holds what a file was parsed to and the text that it was parsed from, both verified
in a revision. -/
structure Holds (session : Session) (key : FileKey) (parsed : ParsedText) (slot textSlot : Nat)
    (verifiedAt : Revision) : Prop where
  tree : ∃ identity changedAt executions, session.cache.memo? slot =
    some ⟨.parseFile key,
      Frontend.treeEntry key parsed textSlot identity changedAt verifiedAt executions⟩
  text : ∃ identity changedAt executions, changedAt ≤ verifiedAt ∧ session.cache.memo? textSlot =
    some ⟨.fileText key.path, Frontend.textEntry key.path (session.world.contents key.path) identity
      changedAt verifiedAt executions⟩

variable {session later : Session} {key : FileKey} {parsed : ParsedText} {slot textSlot : Nat}
  {verifiedAt : Revision}

/-- What a session that holds a file delivers for it. -/
theorem Holds.diagnosticsBelow (holds : session.Holds key parsed slot textSlot verifiedAt) :
    session.cache.diagnosticsBelow slot = .ok parsed.diagnostics := by
  obtain ⟨_, _, _, tree⟩ := holds.tree
  obtain ⟨_, _, _, -, text⟩ := holds.text
  have different : textSlot ≠ slot := by
    rintro rfl
    cases tree.symm.trans text
  have fresh : slot ∈ session.cache.liveSlots := Cache.mem_liveSlots.mpr (by rw [tree]; rfl)
  have fresh' : textSlot ∈ session.cache.liveSlots.erase slot :=
    (List.mem_erase_of_ne different).mpr (Cache.mem_liveSlots.mpr (by rw [text]; rfl))
  have ended (unvisited : List Nat) : session.cache.deliveries unvisited [] = .ok [] := by
    rw [Cache.deliveries]
  unfold Cache.diagnosticsBelow
  rw [Cache.deliveries_visit tree fresh]
  simp only [Frontend.treeEntry, List.map_cons, List.map_nil, List.cons_append, List.nil_append]
  rw [Cache.deliveries_visit text fresh']
  simp only [Frontend.textEntry, List.map_nil, List.nil_append]
  rw [Cache.deliveries_deliver text, Cache.deliveries_deliver tree, ended]
  simp [Except.map, Frontend.treeEntry, Frontend.textEntry]

/-- The counts after some requests for files: so many files are known, and so often one of them was
found up to date in a revision. -/
structure Counted (session : Session) (known verified requests : Nat) : Prop where
  size : session.cache.size = 2 * known
  executions : session.cache.counts.executions = known + verified
  hits : session.cache.counts.hits + verified = requests
  validations : session.cache.counts.validations + known = verified
  backdates : session.cache.counts.backdates + known = verified
  evictions : session.cache.counts.evictions = 0

structure Answered (session later : Session) (key : FileKey) (parsed : ParsedText)
    (names : Interner) (known verified : Nat) : Prop where
  ran : ∃ identity, session.parseFile key = (.ok ⟨identity, parsed.tree⟩, later)
  world : later.world = { session.world with names }
  keeps : session.names.Keeps names
  revision : later.revision = session.revision
  idle : later.active = []
  sink : later.sink = session.sink.append parsed.diagnostics
  wellFormed : later.cache.WellFormed
  holds : ∃ slot textSlot, later.Holds key parsed slot textSlot session.revision ∧
    (∀ query, session.cache.query? slot = some query → query = .parseFile key) ∧
    (∀ query, session.cache.query? textSlot = some query → query = .fileText key.path) ∧
    ∀ other, other ≠ slot → other ≠ textSlot →
      later.cache.memo? other = session.cache.memo? other
  counted : ∀ {files checks requests}, session.Counted files checks requests →
    later.Counted (files + known) (checks + verified) (requests + 1)

theorem parseFile_eq {shared : Shared SyntaxTree} (idle : session.active = [])
    (ran : ∀ depth, Run.fetch (S := signature) rules (depth + 2) (.parseFile key) session =
      some (.ok (slot, shared), later))
    (holds : later.Holds key parsed slot textSlot verifiedAt) :
    session.parseFile key =
      (.ok shared, { later with sink := later.sink.append parsed.diagnostics }) := by
  have requested : Run.request (S := signature) rules session.depthBound (.parseFile key) session =
      _ := Run.request_eq idle (ran (session.cache.slots.size +
        4 * World.scriptSize session.world + 6)) holds.diagnosticsBelow
  exact request_of_run requested

/-- A file that was found up to date in the revision is not looked at again. -/
theorem Holds.answered_current (holds : session.Holds key parsed slot textSlot session.revision)
    (idle : session.active = []) (sound : session.cache.WellFormed) :
    ∃ later, session.Answered later key parsed session.names 0 0 := by
  obtain ⟨identity, changedAt, executions, tree⟩ := holds.tree
  obtain ⟨_, _, _, _, text⟩ := holds.text
  let hit : Session := Context.updateCache (S := signature) session Cache.countHit
  have hitHolds : hit.Holds key parsed slot textSlot session.revision := ⟨holds.tree, holds.text⟩
  have ran (depth : Nat) : Run.fetch (S := signature) rules (depth + 2) (.parseFile key) session =
      some (.ok (slot, ⟨identity, parsed.tree⟩), hit) :=
    Run.answer_eq_of_current (sound.find?_eq tree) rfl rfl
  refine ⟨_, ⟨identity, parseFile_eq idle ran hitHolds⟩, rfl, .refl _, rfl, idle, rfl,
    sound.counted _, ⟨slot, textSlot, ⟨holds.tree, holds.text⟩, ?_, ?_, fun _ _ _ => rfl⟩, ?_⟩
  · intro query here
    exact Option.some.inj (here.symm.trans (Cache.query?_eq tree))
  · intro query here
    exact Option.some.inj (here.symm.trans (Cache.query?_eq text))
  · rintro files checks requests ⟨size, executed, hits, validations, backdates, evictions⟩
    refine ⟨size, executed, ?_, validations, backdates, evictions⟩
    show session.cache.counts.hits + 1 + checks = requests + 1
    omega

def rechecked (session : Session) (slot textSlot : Nat) (tree text : Memo signature) : Session :=
  { session with
    cache := ((session.cache.countValidation.put textSlot text).countExecution true).put slot tree
    nextIdentity := session.nextIdentity + 1 }

theorem memo?_rechecked {old oldText tree text : Memo signature} (different : textSlot ≠ slot)
    (here : session.cache.memo? slot = some old)
    (there : session.cache.memo? textSlot = some oldText) (other : Nat) :
    (session.rechecked slot textSlot tree text).cache.memo? other =
      if other = slot then some tree
      else if other = textSlot then some text else session.cache.memo? other := by
  have here : session.cache.countValidation.memo? slot = some old := here
  have there : session.cache.countValidation.memo? textSlot = some oldText := there
  exact Cache.memo?_put_put different here there other

theorem wellFormed_rechecked {old oldText tree text : Memo signature} (different : textSlot ≠ slot)
    (here : session.cache.memo? slot = some old)
    (there : session.cache.memo? textSlot = some oldText) (sound : session.cache.WellFormed)
    (same : tree.query = old.query) (sameText : text.query = oldText.query) :
    (session.rechecked slot textSlot tree text).cache.WellFormed := by
  have here : session.cache.countValidation.memo? slot = some old := here
  have there : session.cache.countValidation.memo? textSlot = some oldText := there
  have checked : session.cache.countValidation.WellFormed := sound.counted _
  have put := checked.put_put different here there same sameText
  exact put.counted (session.rechecked slot textSlot tree text).cache.counts

/-- A file that was found up to date in an earlier revision is read again, and not parsed again. -/
theorem fetch_parseFile_older {identity textIdentity executions textExecutions : Nat}
    {changedAt textChangedAt : Revision} (idle : session.active = [])
    (sound : session.cache.WellFormed) (older : verifiedAt < session.revision)
    (unchanged : textChangedAt ≤ verifiedAt) (different : textSlot ≠ slot)
    (tree : session.cache.memo? slot = some ⟨.parseFile key,
      Frontend.treeEntry key parsed textSlot identity changedAt verifiedAt executions⟩)
    (text : session.cache.memo? textSlot = some ⟨.fileText key.path,
      Frontend.textEntry key.path (session.world.contents key.path) textIdentity textChangedAt
        verifiedAt textExecutions⟩) (depth : Nat) :
    Run.fetch (S := signature) rules (depth + 2) (.parseFile key) session =
      some (.ok (slot, ⟨identity, parsed.tree⟩), session.rechecked slot textSlot
        ⟨.parseFile key, Frontend.treeEntry key parsed textSlot identity changedAt session.revision
          executions⟩
        ⟨.fileText key.path, Frontend.textEntry key.path (session.world.contents key.path)
          session.nextIdentity textChangedAt session.revision (textExecutions + 1)⟩) := by
  let checking : Session := Context.updateCache (S := signature)
    (Context.pushFrame (S := signature) session slot .validating) Cache.countValidation
  have alone : checking.active = [.start slot .validating] := by
    simp [checking, Context.pushFrame, Context.updateCache, idle]
  have checkingSound : checking.cache.WellFormed := sound.counted _
  have textHere : checking.cache.memo? textSlot = some ⟨.fileText key.path, _⟩ := text
  have served := Frontend.fetch_fileText_older checkingSound
    (Context.cycle?_of_ne rules alone different.symm) textHere (Nat.ne_of_lt older) depth
  let textMemo : Memo signature := ⟨.fileText key.path, Frontend.textEntry key.path
    (session.world.contents key.path) session.nextIdentity textChangedAt session.revision
    (textExecutions + 1)⟩
  let read : Session := { checking with
    cache := (checking.cache.put textSlot textMemo).countExecution true
    nextIdentity := session.nextIdentity + 1 }
  have readHere (other : Nat) : read.cache.memo? other =
      if other = textSlot then some textMemo else checking.cache.memo? other :=
    Cache.memo?_put_of_live textHere other
  have unchecked : Run.areUnchanged (S := signature) (Run.fetch rules (depth + 1)) verifiedAt []
      (Context.pushFrame (S := signature) session slot .validating) = some (.ok true, _) := rfl
  have checked : Run.areUnchanged (S := signature) (Run.fetch rules (depth + 1)) verifiedAt
      [textSlot] (Context.pushFrame (S := signature) session slot .validating) =
        some (.ok true, read) :=
    Run.areUnchanged_concat (S := signature) unchecked text served
      ((readHere textSlot).trans (if_pos rfl)) (Nat.not_lt.mpr unchanged)
  have treeOlder : Run.HasOlder (S := signature) session (.parseFile key) slot _ :=
    ⟨sound.find?_eq tree, rfl, Nat.ne_of_lt older, rfl⟩
  have verified : read.cache.verify slot session.revision = _ :=
    Cache.verify_eq ((readHere slot).trans ((if_neg different.symm).trans tree)) session.revision
  have answered : Run.answer (S := signature) rules (Run.fetch rules (depth + 1)) (.parseFile key)
      session = _ :=
    Run.answer_eq_of_checked treeOlder rfl rfl (Context.cycle?_of_idle rules idle slot) checked rfl
  rw [verified] at answered
  exact answered

/-- A request that put the two memos of a file answered for it. -/
theorem Answered.of_memos {names : Interner} {known verified : Nat} {tree text : Memo signature}
    {identity textIdentity executions textExecutions : Nat} {changedAt textChangedAt : Revision}
    (idle : session.active = []) (different : textSlot ≠ slot)
    (ran : ∀ depth, Run.fetch (S := signature) rules (depth + 2) (.parseFile key) session =
      some (.ok (slot, ⟨identity, parsed.tree⟩), later))
    (here : ∀ other, later.cache.memo? other =
      if other = slot then some tree
      else if other = textSlot then some text else session.cache.memo? other)
    (treeEq : tree = ⟨.parseFile key,
      Frontend.treeEntry key parsed textSlot identity changedAt session.revision executions⟩)
    (textEq : text = ⟨.fileText key.path, Frontend.textEntry key.path
      (later.world.contents key.path) textIdentity textChangedAt session.revision textExecutions⟩)
    (unchanged : textChangedAt ≤ session.revision)
    (own : ∀ query, session.cache.query? slot = some query → query = .parseFile key)
    (textOwn : ∀ query, session.cache.query? textSlot = some query → query = .fileText key.path)
    (world : later.world = { session.world with names }) (keeps : session.names.Keeps names)
    (revision : later.revision = session.revision) (active : later.active = [])
    (sink : later.sink = session.sink) (sound : later.cache.WellFormed)
    (counted : ∀ {files checks requests}, session.Counted files checks requests →
      later.Counted (files + known) (checks + verified) (requests + 1)) :
    ∃ last, session.Answered last key parsed names known verified := by
  have holds : later.Holds key parsed slot textSlot session.revision := by
    constructor
    · exact ⟨identity, changedAt, executions, by rw [here, if_pos rfl, treeEq]⟩
    · refine ⟨textIdentity, textChangedAt, textExecutions, unchanged, ?_⟩
      rw [here, if_neg different, if_pos rfl, textEq]
  refine ⟨_, ⟨identity, parseFile_eq idle ran holds⟩, world, keeps, revision, active,
    congrArg (Sink.append · parsed.diagnostics) sink, sound,
    ⟨slot, textSlot, ⟨holds.tree, holds.text⟩, own, textOwn, ?_⟩, ?_⟩
  · intro other ne ne'
    exact (here other).trans ((if_neg ne).trans (if_neg ne'))
  · intro files checks requests before
    have after : later.Counted (files + known) (checks + verified) (requests + 1) := counted before
    exact ⟨after.size, after.executions, after.hits, after.validations, after.backdates,
      after.evictions⟩

theorem Holds.answered_older (holds : session.Holds key parsed slot textSlot verifiedAt)
    (older : verifiedAt < session.revision) (idle : session.active = [])
    (sound : session.cache.WellFormed) :
    ∃ later, session.Answered later key parsed session.names 0 1 := by
  obtain ⟨identity, changedAt, executions, tree⟩ := holds.tree
  obtain ⟨textIdentity, textChangedAt, textExecutions, unchanged, text⟩ := holds.text
  have different : textSlot ≠ slot := by
    rintro rfl
    cases tree.symm.trans text
  have ran := fetch_parseFile_older idle sound older unchanged different tree text
  generalize treeEq : (⟨.parseFile key, Frontend.treeEntry key parsed textSlot identity changedAt
    session.revision executions⟩ : Memo signature) = newTree at ran
  generalize textEq : (⟨.fileText key.path, Frontend.textEntry key.path
    (session.world.contents key.path) session.nextIdentity textChangedAt session.revision
    (textExecutions + 1)⟩ : Memo signature) = newText at ran
  refine Answered.of_memos idle different ran (memo?_rechecked different tree text) treeEq.symm textEq.symm
    (Nat.le_of_lt (Nat.lt_of_le_of_lt unchanged older)) ?_ ?_ rfl (.refl _) rfl idle rfl
    (wellFormed_rechecked different tree text sound (by rw [← treeEq]) (by rw [← textEq])) ?_
  · intro query here
    exact Option.some.inj (here.symm.trans (Cache.query?_eq tree))
  · intro query here
    exact Option.some.inj (here.symm.trans (Cache.query?_eq text))
  · rintro files checks requests ⟨size, executed, hits, validations, backdates, evictions⟩
    refine ⟨(Cache.size_put ..).trans ((Cache.size_put ..).trans size), ?_, ?_, ?_, ?_, evictions⟩
    · show session.cache.counts.executions + 1 = files + (checks + 1)
      omega
    · show session.cache.counts.hits + (checks + 1) = requests + 1
      omega
    · show session.cache.counts.validations + 1 + files = checks + 1
      omega
    · show session.cache.counts.backdates + 1 + files = checks + 1
      omega

theorem parseFile_ne_fileText (key : FileKey) : (.parseFile key : Query) ≠ .fileText key.path := by
  intro same
  cases same

def opened (session : Session) (key : FileKey) : Nat × Nat × Cache signature :=
  let (slot, cache) := session.cache.insert (.parseFile key) .derived session.revision
  let (textSlot, cache) := cache.insert (.fileText key.path) .derived session.revision
  (slot, textSlot, cache)

def parsedNew (session : Session) (key : FileKey) (tree text : Memo signature) : Session :=
  let (slot, textSlot, cache) := session.opened key
  { session with
    cache := ((((cache.put textSlot text).countExecution false).put slot tree).countExecution false)
    nextIdentity := session.nextIdentity + 2
    world := { session.world with names := (session.world.parsed key).2 } }

section New

variable (sound : session.cache.WellFormed)
  (absent : ∀ slot, session.cache.query? slot ≠ some (.parseFile key))
  (textAbsent : ∀ slot, session.cache.query? slot ≠ some (.fileText key.path))

include sound absent

theorem memo?_opened (other : Nat) :
    (session.opened key).2.2.memo? other =
      if other = (session.opened key).2.1 then
        some (Cache.newMemo (S := signature) (.fileText key.path) .derived session.revision)
      else if other = (session.opened key).1 then
        some (Cache.newMemo (S := signature) (.parseFile key) .derived session.revision)
      else session.cache.memo? other := by
  have first := sound.memo?_insert (.parseFile key) .derived session.revision other
  have second := (sound.insert absent .derived session.revision).memo?_insert (.fileText key.path)
    .derived session.revision other
  exact second.trans (congrArg (ite (other = (session.opened key).2.1) (some _)) first)

theorem opened_ne : (session.opened key).2.1 ≠ (session.opened key).1 :=
  (sound.insert absent .derived session.revision).insert_ne_of_live
    (sound.memo?_insert_self (.parseFile key) .derived session.revision) _ _ _

theorem opened_slot : (session.opened key).2.2.memo? (session.opened key).1 =
    some (Cache.newMemo (S := signature) (.parseFile key) .derived session.revision) := by
  rw [memo?_opened sound absent, if_neg (opened_ne sound absent).symm, if_pos rfl]

theorem opened_textSlot : (session.opened key).2.2.memo? (session.opened key).2.1 =
    some (Cache.newMemo (S := signature) (.fileText key.path) .derived session.revision) := by
  rw [memo?_opened sound absent, if_pos rfl]

theorem empty_opened : session.cache.memo? (session.opened key).1 = none ∧
    session.cache.memo? (session.opened key).2.1 = none := by
  have empty := (sound.insert absent .derived session.revision).insert_slot (.fileText key.path)
    .derived session.revision
  exact ⟨sound.insert_slot .., (sound.memo?_insert_of_ne (opened_ne sound absent)).symm.trans empty⟩

omit sound absent in
theorem counts_opened : (session.opened key).2.2.counts = session.cache.counts :=
  (Cache.counts_insert ..).trans (Cache.counts_insert ..)

theorem size_opened : (session.opened key).2.2.size = session.cache.size + 2 := by
  have first := sound.size_insert (.parseFile key) .derived session.revision
  have second := (sound.insert absent .derived session.revision).size_insert (.fileText key.path)
    .derived session.revision
  exact second.trans (congrArg (· + 1) first)

include textAbsent

theorem wellFormed_opened : (session.opened key).2.2.WellFormed := by
  have textAbsent := sound.absent_insert (parseFile_ne_fileText key) .derived session.revision textAbsent
  exact (sound.insert absent _ _).insert textAbsent _ _

omit textAbsent in
theorem memo?_parsedNew (tree text : Memo signature) (other : Nat) :
    (session.parsedNew key tree text).cache.memo? other =
      if other = (session.opened key).1 then some tree
      else if other = (session.opened key).2.1 then some text else session.cache.memo? other := by
  refine (Cache.memo?_put_put (opened_ne sound absent) (opened_slot sound absent)
    (opened_textSlot sound absent) other).trans ?_
  rw [memo?_opened sound absent]
  split_ifs <;> rfl

/-- A file that is requested for the first time is read and parsed. -/
theorem fetch_parseFile_new (idle : session.active = []) (depth : Nat) :
    Run.fetch (S := signature) rules (depth + 2) (.parseFile key) session =
      some (.ok ((session.opened key).1,
        ⟨session.nextIdentity + 1, (session.world.parsed key).1.tree⟩), session.parsedNew key
          ⟨.parseFile key, Frontend.treeEntry key (session.world.parsed key).1
            (session.opened key).2.1 (session.nextIdentity + 1) session.revision session.revision 1⟩
          ⟨.fileText key.path, Frontend.textEntry key.path (session.world.contents key.path)
            session.nextIdentity session.revision session.revision 1⟩) := by
  let opening : Session := { session with
    cache := (session.cache.insert (.parseFile key) .derived session.revision).2 }
  let slot := (session.opened key).1
  let textSlot := (session.opened key).2.1
  let started : Session := Context.pushFrame (S := signature) opening slot .computing
  have alone : started.active = [.start slot .computing] := by
    simp [started, opening, Context.pushFrame, idle]
  have startedSound : started.cache.WellFormed := sound.insert absent _ _
  have here : started.cache.memo? slot = some _ := sound.memo?_insert_self _ _ _
  have different : slot ≠ textSlot := (startedSound.insert_ne_of_live here _ _ _).symm
  have differs := parseFile_ne_fileText key
  have textAbsent' : started.cache.find? (.fileText key.path) = none :=
    Cache.find?_eq_none (sound.absent_insert differs .derived session.revision textAbsent)
  have served := Frontend.fetch_fileText_new startedSound textAbsent'
    (Context.cycle?_of_ne rules alone different) depth
  have readIn : Context.isInQuery (S := signature) started = true := by
    simp [Context.isInQuery, alone]
  let text : Memo signature := ⟨.fileText key.path, Frontend.textEntry key.path
    (session.world.contents key.path) session.nextIdentity session.revision session.revision 1⟩
  let read : Session := { started with
    cache := ((session.opened key).2.2.put textSlot text).countExecution false
    active := [Frame.addRead (.start slot .computing) textSlot]
    nextIdentity := session.nextIdentity + 1 }
  have evaluated : Run.evaluate (S := signature) rules (Run.fetch rules (depth + 1))
      (rules.compute (.parseFile key)) started =
        Run.evaluate (S := signature) rules (Run.fetch rules (depth + 1))
          (Frontend.Compute.parseContents key (session.world.contents key.path)) read :=
    Frontend.evaluate_parseFile served readIn alone rfl
  have parsed : Run.evaluate (S := signature) rules (Run.fetch rules (depth + 1))
      (Frontend.Compute.parseContents key (session.world.contents key.path)) read = _ :=
    Frontend.evaluate_parseContents key rfl rfl
  have readHere : read.cache.memo? slot = some
      (Cache.newMemo (S := signature) (.parseFile key) .derived session.revision) :=
    (Cache.memo?_put_of_live (opened_textSlot sound absent) slot).trans
      ((if_neg different).trans (opened_slot sound absent))
  have idle' : opening.active = [] := idle
  have executed := Run.execute_eq (S := signature) (Context.cycle?_of_idle rules idle' slot)
    (evaluated.trans parsed) (by rw [idle']) readHere
  have starts : Run.Starts (S := signature) rules (Run.fetch rules (depth + 1)) (.parseFile key)
      session _ _ := .new (Cache.find?_eq_none absent)
  exact starts.answer_eq.trans executed

theorem answered_new (idle : session.active = [])
    (keeps : session.names.Keeps (session.world.parsed key).2)
    (interned : ∃ text, session.names.find? text = some key.path) :
    ∃ later, session.Answered later key (session.world.parsed key).1 (session.world.parsed key).2
      1 1 := by
  have ran := fetch_parseFile_new sound absent textAbsent idle
  have different := opened_ne sound absent
  have here := opened_slot sound absent
  have textHere := opened_textSlot sound absent
  generalize treeEq : (⟨.parseFile key, Frontend.treeEntry key (session.world.parsed key).1
    (session.opened key).2.1 (session.nextIdentity + 1) session.revision session.revision 1⟩ :
    Memo signature) = newTree at ran
  generalize textEq : (⟨.fileText key.path, Frontend.textEntry key.path
    (session.world.contents key.path) session.nextIdentity session.revision session.revision 1⟩ :
    Memo signature) = newText at ran
  obtain ⟨text, found⟩ := interned
  have contents : World.contents { session.world with names := (session.world.parsed key).2 }
      key.path = session.world.contents key.path := World.contents_of_keeps keeps found
  have put : (((session.opened key).2.2.put (session.opened key).2.1 newText).put
      (session.opened key).1 newTree).WellFormed :=
    (wellFormed_opened sound absent textAbsent).put_put different here textHere
      (by rw [← treeEq]; rfl) (by rw [← textEq]; rfl)
  refine Answered.of_memos idle different ran (memo?_parsedNew sound absent newTree newText)
    treeEq.symm (textEq.symm.trans (by rw [← contents]; rfl)) (Nat.le_refl _) ?_ ?_ rfl keeps rfl
    idle rfl (put.counted _) ?_
  · intro query here
    simp [Cache.query?, (empty_opened sound absent).1] at here
  · intro query here
    simp [Cache.query?, (empty_opened sound absent).2] at here
  · rintro files checks requests ⟨size, executed, hits, validations, backdates, evictions⟩
    have sizes : (session.parsedNew key newTree newText).cache.size = session.cache.size + 2 :=
      (Cache.size_put ..).trans ((Cache.size_put ..).trans (size_opened sound absent))
    have counts : (session.parsedNew key newTree newText).cache.counts = 
        { session.cache.counts with executions := session.cache.counts.executions + 2 } := by
      rw [← @counts_opened session key]
      rfl
    constructor
    · rw [sizes]
      omega
    all_goals
      rw [counts]
      dsimp only
      omega

end New

end Session

end IncrementalFrontend
