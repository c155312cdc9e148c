import Mathlib.Data.List.Dedup
import Mathlib.Data.Finset.Card
import Mathlib.Tactic.Ring
import IncrementalFrontend.Proofs.CommandLine.Rounds

/-!
Runs with repeats. In whatever state the memos are, a round over the files finds what parsing each
file once, where it is first listed, finds; so the rounds of a run differ in their counts alone.
-/
namespace IncrementalFrontend

open Frontend (Query World rules signature)

theorem Frontend.World.keeps_parsed (world : World) (key : FileKey) :
    world.names.Keeps (world.parsed key).2 := by
  have named : world.names.Keeps (SourceUnit.ofPath key.path key.parent world.names).2 :=
    world.names.keeps_intern _
  unfold parsed
  dsimp only
  split
  · exact named.trans (TokenList.keeps_ofText _ _)
  · exact named

abbrev ParsedFiles := List (Name × ParsedText)

namespace ParsedFiles

def paths (files : ParsedFiles) : List Name :=
  files.map Prod.fst

def diagnostics (files : ParsedFiles) (path : Name) : List Diagnostic :=
  ((files.lookup path).map (·.diagnostics)).getD []

def parse (files : ParsedFiles) (world : World) (key : FileKey) : ParsedText × ParsedFiles × World :=
  match files.lookup key.path with
  | some parsed => (parsed, files, world)
  | none =>
    ((world.parsed key).1, (key.path, (world.parsed key).1) :: files,
      { world with names := (world.parsed key).2 })

def parseAll (parent : Name) : List Name → ParsedFiles → World → String × ParsedFiles × World
  | [], files, world => ("", files, world)
  | path :: rest, files, world =>
    let (parsed, files, world) := files.parse world ⟨path, parent⟩
    let (shown, last) := parseAll parent rest files world
    (Options.showTree parsed.tree world.names ++ shown, last)

variable {files : ParsedFiles} {world : World} {parent path : Name} {parsed : ParsedText}

theorem parseAll_cons (parent path : Name) (rest : List Name) (files : ParsedFiles)
    (world : World) : parseAll parent (path :: rest) files world =
      let step := files.parse world ⟨path, parent⟩
      (Options.showTree step.1.tree step.2.2.names ++ (parseAll parent rest step.2.1 step.2.2).1,
        (parseAll parent rest step.2.1 step.2.2).2) :=
  rfl

theorem exists_lookup_iff : (∃ parsed, files.lookup path = some parsed) ↔ path ∈ files.paths := by
  rw [← Option.isSome_iff_exists, List.lookup_isSome_iff]
  simp only [paths, List.mem_map, beq_iff_eq]
  exact exists_congr fun file => and_congr_right fun _ => eq_comm

theorem lookup_parse (known : files.lookup path = some parsed) (world : World) (key : FileKey) :
    (files.parse world key).2.1.lookup path = some parsed := by
  unfold parse
  split
  · exact known
  · rename_i new
    have different : path ≠ key.path := by
      rintro rfl
      cases known.symm.trans new
    rw [List.lookup_cons, beq_false_of_ne different]
    exact known

theorem lookup_parse_self (files : ParsedFiles) (world : World) (key : FileKey) :
    (files.parse world key).2.1.lookup key.path = some (files.parse world key).1 := by
  unfold parse
  split
  · assumption
  · exact List.lookup_cons_self

theorem lookup_parseAll (known : files.lookup path = some parsed) (paths : List Name)
    (world : World) : (parseAll parent paths files world).2.1.lookup path = some parsed := by
  induction paths generalizing files world with
  | nil => exact known
  | cons first rest ih => exact ih (lookup_parse known world ⟨first, parent⟩) _

theorem mem_paths_parse (files : ParsedFiles) (world : World) (key : FileKey) (path : Name) :
    path ∈ (files.parse world key).2.1.paths ↔ path = key.path ∨ path ∈ files.paths := by
  unfold parse
  split
  · rename_i parsed found
    have member := exists_lookup_iff.mp ⟨parsed, found⟩
    refine (or_iff_right_of_imp ?_).symm
    rintro rfl
    exact member
  · simp [paths]

theorem mem_paths_parseAll (parent : Name) (paths : List Name) (files : ParsedFiles)
    (world : World) (path : Name) :
    path ∈ (parseAll parent paths files world).2.1.paths ↔ path ∈ files.paths ∨ path ∈ paths := by
  induction paths generalizing files world with
  | nil => simp [parseAll]
  | cons first rest ih =>
    rw [parseAll_cons]
    dsimp only
    rw [ih, mem_paths_parse, List.mem_cons]
    tauto

/-- Files that are known already are not parsed again. -/
theorem parseAll_of_known {paths : List Name} (known : ∀ path ∈ paths, path ∈ files.paths) :
    (parseAll parent paths files world).2 = (files, world) := by
  induction paths with
  | nil => rfl
  | cons first rest ih =>
    obtain ⟨parsed, found⟩ := exists_lookup_iff.mpr (known first List.mem_cons_self)
    have same : files.parse world ⟨first, parent⟩ = (parsed, files, world) := by
      unfold parse
      rw [found]
    rw [parseAll, same]
    exact ih fun path member => known path (List.mem_cons_of_mem _ member)

end ParsedFiles

namespace Session

/-- A session parsed these files and nothing else; the current ones were found up to date in its
revision. -/
structure Tracks (session : Session) (parent : Name) (files : ParsedFiles) (current : List Name) :
    Prop where
  idle : session.active = []
  wellFormed : session.cache.WellFormed
  nodup : files.paths.Nodup
  interned : ∀ path ∈ files.paths, ∃ text, session.names.find? text = some path
  nodup_current : current.Nodup
  current_subset : current ⊆ files.paths
  holds : ∀ path parsed, files.lookup path = some parsed → ∃ slot textSlot verifiedAt,
    session.Holds ⟨path, parent⟩ parsed slot textSlot verifiedAt ∧
      if path ∈ current then verifiedAt = session.revision else verifiedAt < session.revision
  known : ∀ slot query, session.cache.query? slot = some query → ∃ path ∈ files.paths,
    query = .parseFile ⟨path, parent⟩ ∨ query = .fileText path

variable {session later : Session} {parent path : Name} {files : ParsedFiles} {current : List Name}
  {parsed : ParsedText} {names : Interner} {known verified : Nat}

/-- What is held of a file stays while another one is requested. -/
theorem Holds.of_answered {other : Name} {otherParsed : ParsedText} {slot textSlot : Nat}
    {verifiedAt : Revision}
    (holds : session.Holds ⟨other, parent⟩ otherParsed slot textSlot verifiedAt)
    (answered : session.Answered later ⟨path, parent⟩ parsed names known verified)
    (interned : ∃ text, session.names.find? text = some other) (different : other ≠ path) :
    later.Holds ⟨other, parent⟩ otherParsed slot textSlot verifiedAt := by
  obtain ⟨place, textPlace, -, own, textOwn, same⟩ := answered.holds
  obtain ⟨text, found⟩ := interned
  obtain ⟨identity, changedAt, executions, tree⟩ := holds.tree
  obtain ⟨textIdentity, textChangedAt, textExecutions, unchanged, text⟩ := holds.text
  have contents : later.world.contents other = session.world.contents other := by
    rw [answered.world]
    exact World.contents_of_keeps answered.keeps found
  constructor
  · refine ⟨identity, changedAt, executions, (same slot ?_ ?_).trans tree⟩
    · rintro rfl
      cases own _ (Cache.query?_eq tree)
      exact different rfl
    · rintro rfl
      cases textOwn _ (Cache.query?_eq tree)
  · refine ⟨textIdentity, textChangedAt, textExecutions, unchanged, ?_⟩
    rw [contents]
    refine (same textSlot ?_ ?_).trans text
    · rintro rfl
      cases own _ (Cache.query?_eq text)
    · rintro rfl
      cases textOwn _ (Cache.query?_eq text)
      exact different rfl

theorem Tracks.of_answered {more : ParsedFiles} (tracks : session.Tracks parent files current)
    (answered : session.Answered later ⟨path, parent⟩ parsed names known verified)
    (interned : ∃ text, session.names.find? text = some path) (nodup : more.paths.Nodup)
    (here : more.lookup path = some parsed)
    (others : ∀ other, other ≠ path → more.lookup other = files.lookup other) :
    later.Tracks parent more (current.insert path) := by
  have mem_more (other : Name) : other ∈ more.paths ↔ other = path ∨ other ∈ files.paths := by
    by_cases same : other = path
    · subst same
      simp [← ParsedFiles.exists_lookup_iff, here]
    · rw [← ParsedFiles.exists_lookup_iff, ← ParsedFiles.exists_lookup_iff, others other same]
      simp [same]
  obtain ⟨slot, textSlot, holds, own, textOwn, same⟩ := answered.holds
  refine ⟨answered.idle, answered.wellFormed, nodup, ?_, tracks.nodup_current.insert, ?_, ?_, ?_⟩
  · intro other member
    have before : ∃ text, session.names.find? text = some other := by
      obtain rfl | member := (mem_more other).mp member
      · exact interned
      · exact tracks.interned other member
    obtain ⟨text, found⟩ := before
    refine ⟨text, ?_⟩
    rw [Session.names, answered.world]
    exact answered.keeps _ _ found
  · intro other member
    rw [List.mem_insert_iff] at member
    exact (mem_more other).mpr (member.imp_right fun member => tracks.current_subset member)
  · intro other otherParsed known
    rw [answered.revision]
    by_cases equal : other = path
    · subst equal
      cases here.symm.trans known
      exact ⟨slot, textSlot, session.revision, holds, by simp⟩
    · rw [others other equal] at known
      obtain ⟨place, textPlace, verifiedAt, holds, verified⟩ := tracks.holds other otherParsed known
      have interned := tracks.interned other (ParsedFiles.exists_lookup_iff.mp ⟨_, known⟩)
      refine ⟨place, textPlace, verifiedAt, holds.of_answered answered interned equal, ?_⟩
      simpa [List.mem_insert_iff, equal] using verified
  · intro other query known
    obtain ⟨_, _, _, tree⟩ := holds.tree
    obtain ⟨_, _, _, -, text⟩ := holds.text
    by_cases isTree : other = slot
    · subst isTree
      cases known.symm.trans (Cache.query?_eq tree)
      exact ⟨path, (mem_more path).mpr (.inl rfl), .inl rfl⟩
    · by_cases isText : other = textSlot
      · subst isText
        cases known.symm.trans (Cache.query?_eq text)
        exact ⟨path, (mem_more path).mpr (.inl rfl), .inr rfl⟩
      · rw [Cache.query?, same other isTree isText] at known
        obtain ⟨owner, member, either⟩ := tracks.known other query known
        exact ⟨owner, (mem_more owner).mpr (.inr member), either⟩

/-- A request for a file, whatever is known of it, finds what it is parsed to once. -/
theorem Tracks.request (tracks : session.Tracks parent files current)
    (interned : ∃ text, session.names.find? text = some path) :
    let parse := files.parse session.world ⟨path, parent⟩
    ∃ later known verified,
      session.Answered later ⟨path, parent⟩ parse.1 parse.2.2.names known verified ∧
      later.world = parse.2.2 ∧ later.Tracks parent parse.2.1 (current.insert path) ∧
      parse.2.1.length = files.length + known ∧
      (current.insert path).length = current.length + verified := by
  have here := files.lookup_parse_self session.world ⟨path, parent⟩
  unfold ParsedFiles.parse at here ⊢
  cases found : files.lookup path with
  | some parsed =>
    obtain ⟨slot, textSlot, verifiedAt, holds, verified⟩ := tracks.holds path parsed found
    by_cases isCurrent : path ∈ current
    · rw [if_pos isCurrent] at verified
      subst verified
      obtain ⟨later, answered⟩ := holds.answered_current tracks.idle tracks.wellFormed
      exact ⟨later, 0, 0, answered, answered.world,
        tracks.of_answered answered interned tracks.nodup found fun _ _ => rfl, rfl,
        List.length_insert_of_mem isCurrent⟩
    · rw [if_neg isCurrent] at verified
      obtain ⟨later, answered⟩ := holds.answered_older verified tracks.idle tracks.wellFormed
      exact ⟨later, 0, 1, answered, answered.world,
        tracks.of_answered answered interned tracks.nodup found fun _ _ => rfl, rfl,
        List.length_insert_of_not_mem isCurrent⟩
  | none =>
    simp only [found] at here ⊢
    have new : path ∉ files.paths := by
      rw [← ParsedFiles.exists_lookup_iff, found]
      nofun
    have absent (query : Query) (about : query = .parseFile ⟨path, parent⟩ ∨ query = .fileText path)
        (slot : Nat) : session.cache.query? slot ≠ some query := by
      intro known
      obtain ⟨other, member, either⟩ := tracks.known slot query known
      obtain rfl | rfl := about <;> obtain same | same := either <;> cases same <;>
        exact new member
    obtain ⟨later, answered⟩ := answered_new tracks.wellFormed (absent _ (.inl rfl))
      (absent _ (.inr rfl)) tracks.idle (session.world.keeps_parsed _) interned
    refine ⟨later, 1, 1, answered, answered.world, tracks.of_answered answered interned
      (List.nodup_cons.mpr ⟨new, tracks.nodup⟩) here ?_, rfl,
      List.length_insert_of_not_mem fun member => new (tracks.current_subset member)⟩
    intro other different
    rw [List.lookup_cons, beq_false_of_ne different]

/-- A round over files finds what parsing each of them once finds, delivers the diagnostics of all
of them, and leaves them up to date. -/
theorem Tracks.round (tracks : session.Tracks parent files current) {paths : List Name}
    (interned : ∀ path ∈ paths, ∃ text, session.names.find? text = some path)
    {checks requests : Nat}
    (counted : session.Counted files.length (checks + current.length) requests) :
    let parse := ParsedFiles.parseAll parent paths files session.world
    ∃ later current', Options.parseFiles session parent paths = (.ok (), parse.1, later) ∧
      later.Tracks parent parse.2.1 current' ∧
      (∀ path, path ∈ current' ↔ path ∈ current ∨ path ∈ paths) ∧ later.world = parse.2.2 ∧
      later.sink = session.sink.append (paths.flatMap parse.2.1.diagnostics) ∧
      later.Counted parse.2.1.length (checks + current'.length) (requests + paths.length) := by
  dsimp only
  induction paths generalizing session files current requests with
  | nil =>
    refine ⟨session, current, rfl, tracks, by simp, rfl, ?_, counted⟩
    simp [Sink.append]
  | cons path rest ih =>
    have here := files.lookup_parse_self session.world ⟨path, parent⟩
    obtain ⟨there, known, verified, answered, world, tracks', longer, longer'⟩ :=
      tracks.request (interned path List.mem_cons_self)
    rw [ParsedFiles.parseAll_cons parent path rest files session.world]
    generalize files.parse session.world ⟨path, parent⟩ = step at *
    obtain ⟨parsed, more, world⟩ := step
    dsimp only at *
    subst world
    have counted' : there.Counted more.length (checks + (current.insert path).length)
        (requests + 1) := by
      rw [longer, longer', ← Nat.add_assoc]
      exact answered.counted counted
    have interned' : ∀ other ∈ rest, ∃ text, there.names.find? text = some other := by
      intro other member
      obtain ⟨text, found⟩ := interned other (List.mem_cons_of_mem _ member)
      refine ⟨text, ?_⟩
      rw [Session.names, answered.world]
      exact answered.keeps _ _ found
    obtain ⟨last, current', ran, tracks'', mem, world, sink, counted''⟩ :=
      ih tracks' interned' counted'
    have found := @ParsedFiles.lookup_parseAll _ parent _ _ here rest there.world
    obtain ⟨identity, answer⟩ := answered.ran
    refine ⟨last, current', ?_, tracks'', ?_, world, ?_, ?_⟩
    · rw [Options.parseFiles, answer]
      dsimp only
      rw [ran]
      rfl
    · intro other
      rw [mem, List.mem_insert_iff, List.mem_cons]
      tauto
    · rw [sink, answered.sink, Sink.append_append, List.flatMap_cons]
      simp [ParsedFiles.diagnostics, found]
    · rw [List.length_cons, Nat.add_comm rest.length, ← Nat.add_assoc]
      exact counted''

/-- With all its files up to date, a session has nothing to collect. -/
theorem Tracks.collectable_eq (tracks : session.Tracks parent files current)
    (all : ∀ path ∈ files.paths, path ∈ current) :
    Context.collectable (S := signature) rules session = [] := by
  have fresh : Context.slotsWith (S := signature) session
      (Context.isStale (S := signature) session) = [] := by
    unfold Context.slotsWith
    rw [List.filter_eq_nil_iff]
    intro slot live stale
    obtain ⟨memo, here⟩ := Option.isSome_iff_exists.mp (Cache.mem_liveSlots.mp live)
    rw [here] at stale
    obtain ⟨path, member, about⟩ := tracks.known slot memo.query (by rw [Cache.query?, here]; rfl)
    obtain ⟨parsed, found⟩ := ParsedFiles.exists_lookup_iff.mpr member
    obtain ⟨place, textPlace, verifiedAt, holds, verified⟩ := tracks.holds path parsed found
    rw [if_pos (all path member)] at verified
    subst verified
    obtain ⟨_, _, _, tree⟩ := holds.tree
    obtain ⟨_, _, _, -, text⟩ := holds.text
    have same (other : Nat) (known : Memo signature) (there : session.cache.memo? other = some known)
        (equal : memo.query = known.query) : memo = known := by
      have atSlot : session.cache.query? slot = some memo.query := by rw [Cache.query?, here]; rfl
      have atOther : session.cache.query? other = some memo.query := by
        rw [Cache.query?, there, equal]
        rfl
      cases tracks.wellFormed.unique atSlot atOther
      exact Option.some.inj (here.symm.trans there)
    obtain isTree | isText := about
    · obtain rfl := same _ _ tree isTree
      simp [Context.isStale, Frontend.treeEntry] at stale
    · obtain rfl := same _ _ text isText
      simp [Context.isStale, Frontend.textEntry] at stale
  unfold Context.collectable
  rw [fresh]
  rfl

/-- A new revision of a session whose files are up to date keeps all memos. -/
theorem Tracks.advance_eq (tracks : session.Tracks parent files current)
    (all : ∀ path ∈ files.paths, path ∈ current) :
    session.advance = { session with revision := session.revision + 1 } := by
  unfold Session.advance Context.advance Context.collectGarbage
  rw [tracks.collectable_eq all]
  split <;> rfl

theorem Tracks.advance (tracks : session.Tracks parent files current)
    (all : ∀ path ∈ files.paths, path ∈ current) : session.advance.Tracks parent files [] := by
  rw [tracks.advance_eq all]
  refine ⟨tracks.idle, tracks.wellFormed, tracks.nodup, tracks.interned, List.nodup_nil,
    List.nil_subset _, ?_, tracks.known⟩
  intro path parsed found
  obtain ⟨slot, textSlot, verifiedAt, ⟨tree, text⟩, verified⟩ := tracks.holds path parsed found
  rw [if_pos (all path (ParsedFiles.exists_lookup_iff.mp ⟨_, found⟩))] at verified
  subst verified
  exact ⟨slot, textSlot, session.revision, ⟨tree, text⟩, by simp⟩

/-- Taking the diagnostics leaves the rest of a session as it is. -/
theorem Tracks.takeDiagnostics (tracks : session.Tracks parent files current) :
    Tracks session.takeDiagnostics.2 parent files current :=
  ⟨tracks.idle, tracks.wellFormed, tracks.nodup, tracks.interned, tracks.nodup_current,
    tracks.current_subset, fun path parsed found =>
      have ⟨slot, textSlot, verifiedAt, ⟨tree, text⟩, verified⟩ := tracks.holds path parsed found
      ⟨slot, textSlot, verifiedAt, ⟨tree, text⟩, verified⟩, tracks.known⟩

theorem Tracks.length_current (tracks : session.Tracks parent files current)
    (all : ∀ path ∈ files.paths, path ∈ current) : current.length = files.length := by
  have perm : current.Perm files.paths :=
    (List.perm_ext_iff_of_nodup tracks.nodup_current tracks.nodup).mpr fun path =>
      ⟨fun member => tracks.current_subset member, all path⟩
  rw [perm.length_eq, ParsedFiles.paths, List.length_map]

theorem Tracks.length_eq (tracks : session.Tracks parent files current) {paths : List Name}
    (listed : ∀ path, path ∈ paths ↔ path ∈ files.paths) : files.length = paths.dedup.length := by
  have perm : files.paths.Perm paths.dedup :=
    (List.perm_ext_iff_of_nodup tracks.nodup paths.nodup_dedup).mpr fun path => by
      rw [List.mem_dedup, listed]
  rw [← perm.length_eq, ParsedFiles.paths, List.length_map]

/-- Further rounds find the same diagnostics. -/
theorem Tracks.reparse (tracks : session.Tracks parent files current)
    (all : ∀ path ∈ files.paths, path ∈ current) {paths : List Name}
    (listed : ∀ path, path ∈ paths ↔ path ∈ files.paths) (taken : session.sink = .empty)
    {checks requests : Nat} (counted : session.Counted files.length checks requests)
    (count : Nat) :
    ∃ later, Options.reparse parent paths count (paths.flatMap files.diagnostics) session =
        (.ok (paths.flatMap files.diagnostics), later) ∧
      later.world = session.world ∧ later.Counted files.length (checks + count * files.length)
        (requests + count * paths.length) := by
  induction count generalizing session current checks requests with
  | zero => exact ⟨session, rfl, rfl, by simpa using counted⟩
  | succ count ih =>
    have advanced := tracks.advance_eq all
    have tracks' := tracks.advance all
    have counted' : session.advance.Counted files.length (checks + ([] : List Name).length)
        requests := by
      rw [advanced]
      exact ⟨counted.size, counted.executions, counted.hits, counted.validations,
        counted.backdates, counted.evictions⟩
    have interned (path : Name) (member : path ∈ paths) :
        ∃ text, session.advance.names.find? text = some path :=
      tracks'.interned path ((listed path).mp member)
    have known : (ParsedFiles.parseAll parent paths files session.advance.world).2 =
        (files, session.advance.world) :=
      ParsedFiles.parseAll_of_known fun path member => (listed path).mp member
    obtain ⟨later, current', ran, tracks'', mem, world, sink, counted''⟩ :=
      tracks'.round interned counted'
    rw [known] at tracks'' world sink counted''
    have all' (path : Name) (member : path ∈ files.paths) : path ∈ current' :=
      (mem path).mpr (.inr ((listed path).mpr member))
    have taken' : Context.takeDiagnostics (S := signature) later =
        (paths.flatMap files.diagnostics, { later with sink := .empty }) := by
      rw [Context.takeDiagnostics, sink, advanced, taken]
      rfl
    have tracks₃ := tracks''.takeDiagnostics
    rw [taken'] at tracks₃
    rw [tracks''.length_current all'] at counted''
    obtain ⟨last, ran', world', counted₃⟩ := ih tracks₃ all' rfl
      ⟨counted''.size, counted''.executions, counted''.hits, counted''.validations,
        counted''.backdates, counted''.evictions⟩
    refine ⟨last, ?_, ?_, ?_⟩
    · rw [Options.reparse, ran]
      dsimp only
      rw [taken']
      exact ran'
    · rw [world', advanced] at *
      exact world
    · have checksEq : checks + (count + 1) * files.length =
          checks + files.length + count * files.length := by ring
      have requestsEq : requests + (count + 1) * paths.length =
          requests + paths.length + count * paths.length := by ring
      rw [checksEq, requestsEq]
      exact counted₃

end Session

namespace Options

variable {session : Session}

/-- Interning depends on the names of a session only. -/
theorem internAll_collects (texts : List String) (session : Session) (collects : Bool) :
    internAll texts { session with collectsOnAdvance := collects } =
      ((internAll texts session).1,
        { (internAll texts session).2 with collectsOnAdvance := collects }) := by
  induction texts generalizing session with
  | nil => rfl
  | cons text rest ih =>
    have later := ih (session.intern text).2
    simp only [internAll]
    exact congrArg (fun result : List Name × Session => ((session.intern text).1 :: result.1, result.2)) later

def openParent (command : Command) (session : Session) : Name × Session :=
  match command with
  | .parse (some parent) => session.intern parent
  | _ => (.empty, session)

theorem openSession_eq (options : Options) (files : String → FileContents) :
    options.openSession files =
      let opened := openParent options.command (Session.start files (1 < options.repeats))
      (opened.1, internAll options.files opened.2) :=
  rfl

theorem openParent_collects (command : Command) (session : Session) (collects : Bool) :
    openParent command { session with collectsOnAdvance := collects } =
      ((openParent command session).1,
        { (openParent command session).2 with collectsOnAdvance := collects }) := by
  unfold openParent
  split <;> rfl

/-- Sessions for different numbers of repeats differ only in whether they collect. -/
theorem openSession_repeats (options : Options) (repeats : Nat) (files : String → FileContents) :
    ({ options with repeats } : Options).openSession files =
      ((options.openSession files).1, (options.openSession files).2.1,
        { (options.openSession files).2.2 with collectsOnAdvance := 1 < repeats }) := by
  have start : Session.start files (1 < repeats) =
      { Session.start files (1 < options.repeats) with collectsOnAdvance := 1 < repeats } := rfl
  rw [openSession_eq, openSession_eq]
  dsimp only
  rw [start, openParent_collects, internAll_collects]

structure Interned (before after : Session) : Prop where
  names : before.names.Keeps after.names
  other : after = { before with world := { before.world with names := after.names } }

theorem interned_internAll (texts : List String) (session : Session) :
    Interned session (internAll texts session).2 ∧
      List.Forall₂ (fun text path => (internAll texts session).2.names.find? text = some path) texts
        (internAll texts session).1 := by
  induction texts generalizing session with
  | nil => exact ⟨⟨.refl _, rfl⟩, .nil⟩
  | cons text rest ih =>
    obtain ⟨interned, found⟩ := ih (session.intern text).2
    have first : session.names.Keeps (session.intern text).2.names := session.names.keeps_intern text
    refine ⟨⟨first.trans interned.names, interned.other⟩, .cons ?_ found⟩
    exact interned.names _ _ (session.names.find?_intern text)

theorem interned_openParent (command : Command) (session : Session) :
    Interned session (openParent command session).2 := by
  unfold openParent
  split
  · exact ⟨session.names.keeps_intern _, rfl⟩
  · exact ⟨.refl _, rfl⟩

theorem Interned.trans {first second third : Session} (left : Interned first second)
    (right : Interned second third) : Interned first third where
  names := left.names.trans right.names
  other := by
    rw [right.other, left.other]
    rfl

/-- The session of a run has asked for nothing yet, and knows the names of the files. -/
theorem interned_openSession (options : Options) (files : String → FileContents) :
    Interned (Session.start files (1 < options.repeats)) (options.openSession files).2.2 ∧
      List.Forall₂ (fun text path =>
        (options.openSession files).2.2.names.find? text = some path) options.files
          (options.openSession files).2.1 := by
  rw [openSession_eq]
  obtain ⟨interned, found⟩ := interned_internAll options.files
    (openParent options.command (Session.start files (1 < options.repeats))).2
  exact ⟨(interned_openParent options.command _).trans interned, found⟩

theorem Interned.tracks {files : String → FileContents} {collects : Bool} {session : Session}
    (interned : Interned (Session.start files collects) session) (parent : Name) :
    session.Tracks parent [] [] := by
  rw [interned.other]
  have empty (slot : Nat) : (Cache.empty : Cache signature).query? slot = none := by
    simp [Cache.query?]
  refine ⟨rfl, ⟨?_, List.nodup_nil, ?_⟩, List.nodup_nil, List.forall_mem_nil _, List.nodup_nil,
    List.nil_subset _, fun path parsed found => ?_, ?_⟩
  · intro slot other query here
    cases (empty slot).symm.trans here
  · intro slot
    show slot ∈ [] ↔ slot < 0 ∧ _
    simp
  · cases found
  · intro slot query here
    cases (empty slot).symm.trans here

theorem Interned.counted {files : String → FileContents} {collects : Bool} {session : Session}
    (interned : Interned (Session.start files collects) session) : session.Counted 0 0 0 := by
  rw [interned.other]
  exact ⟨rfl, rfl, rfl, rfl, rfl, rfl⟩

def statistics (repeats listed distinct : Nat) : String :=
  s!"cache: {2 * distinct} entries, {distinct * (repeats + 1)} executions, " ++
    s!"{(listed - distinct) * repeats} hits, {distinct * (repeats - 1)} validations, " ++
    s!"{distinct * (repeats - 1)} backdates, 0 evictions\n"

/-- The counts of a session that found each of some files up to date in some rounds. -/
theorem showCounts_eq {session : Session} {files rounds listed : Nat}
    (counted : session.Counted files (rounds * files) (rounds * listed)) :
    showCounts session = statistics rounds listed files := by
  obtain ⟨size, executions, hits, validations, backdates, evictions⟩ := counted
  have executions : session.cache.counts.executions = files * (rounds + 1) := by
    rw [executions]
    ring
  have hits : session.cache.counts.hits = (listed - files) * rounds := by
    rw [Nat.sub_mul, Nat.mul_comm listed, Nat.mul_comm files]
    omega
  have rest : files * (rounds - 1) = rounds * files - files := by
    rw [Nat.mul_sub, Nat.mul_one, Nat.mul_comm]
  have validations : session.cache.counts.validations = files * (rounds - 1) := by omega
  have backdates : session.cache.counts.backdates = files * (rounds - 1) := by omega
  unfold showCounts statistics
  dsimp only
  rw [size, executions, hits, validations, backdates, evictions]
  simp only [String.append_assoc]
  rfl

section Found

variable {names : Interner} {texts : List String} {paths : List Name}
  (found : List.Forall₂ (fun text path => names.find? text = some path) texts paths)

include found

theorem exists_text_of_found : ∀ path ∈ paths, ∃ text, names.find? text = some path := by
  induction found with
  | nil => exact nofun
  | cons here _ ih => exact List.forall_mem_cons.mpr ⟨⟨_, here⟩, ih⟩

/-- Texts and their handles repeat alike. -/
theorem length_dedup_of_found : texts.dedup.length = paths.dedup.length := by
  have looked : texts = paths.map names.lookup := by
    induction found with
    | nil => rfl
    | cons here _ ih => rw [List.map_cons, ← ih, Interner.lookup_of_find? here]
  have injective : Set.InjOn names.lookup paths.toFinset := by
    intro first member second member' same
    obtain ⟨text, here⟩ := exists_text_of_found found first (by simpa using member)
    obtain ⟨text', here'⟩ := exists_text_of_found found second (by simpa using member')
    rw [Interner.lookup_of_find? here, Interner.lookup_of_find? here'] at same
    subst same
    exact Option.some.inj (here.symm.trans here')
  have image : (paths.map names.lookup).toFinset = paths.toFinset.image names.lookup := by
    ext text
    simp
  rw [← List.card_toFinset, ← List.card_toFinset, looked, image]
  exact Finset.card_image_of_injOn injective

end Found

/-- The rounds of a run: the first finds what parsing each file once finds, the others find the same
diagnostics, and in the end the counts are those of all rounds. -/
theorem exists_rounds (options : Options) (files : String → FileContents) :
    let opened := options.openSession files
    let parse := ParsedFiles.parseAll opened.1 opened.2.1 [] opened.2.2.world
    let diagnostics := opened.2.1.flatMap parse.2.1.diagnostics
    ∃ later taken last,
      parseFiles opened.2.2 opened.1 opened.2.1 = (.ok (), parse.1, later) ∧
      Context.takeDiagnostics (S := signature) later = (diagnostics, taken) ∧
      reparse opened.1 opened.2.1 (options.repeats - 1) diagnostics taken =
        (.ok diagnostics, last) ∧
      last.names = parse.2.2.names ∧
      (1 < options.repeats → showCounts last =
        statistics options.repeats options.files.length options.files.dedup.length) := by
  obtain ⟨interned, found⟩ := interned_openSession options files
  generalize options.openSession files = opened at interned found ⊢
  obtain ⟨parent, paths, opened⟩ := opened
  dsimp only at *
  have start : opened.Counted ([] : ParsedFiles).length (0 + ([] : List Name).length) 0 :=
    interned.counted
  obtain ⟨later, current, ran, tracks, mem, world, sink, counted⟩ :=
    (interned.tracks parent).round (exists_text_of_found found) start
  have listed (path : Name) : path ∈ paths ↔
      path ∈ (ParsedFiles.parseAll parent paths [] opened.world).2.1.paths := by
    have mem := ParsedFiles.mem_paths_parseAll parent paths [] opened.world path
    rw [mem]
    simp [ParsedFiles.paths]
  have emptied : opened.sink = .empty := by
    rw [interned.other]
    rfl
  generalize ParsedFiles.parseAll parent paths [] opened.world = parse at *
  obtain ⟨trees, parsed, last⟩ := parse
  dsimp only at *
  have all (path : Name) (member : path ∈ parsed.paths) : path ∈ current :=
    (mem path).mpr (.inr ((listed path).mpr member))
  have taken : Context.takeDiagnostics (S := signature) later =
      (paths.flatMap parsed.diagnostics, { later with sink := .empty }) := by
    rw [Context.takeDiagnostics, sink, emptied]
    rfl
  have tracks' := tracks.takeDiagnostics
  rw [taken] at tracks'
  rw [tracks.length_current all, Nat.zero_add, Nat.zero_add] at counted
  obtain ⟨ended, again, world', counted'⟩ := tracks'.reparse all listed rfl
    ⟨counted.size, counted.executions, counted.hits, counted.validations, counted.backdates,
      counted.evictions⟩ (options.repeats - 1)
  refine ⟨later, _, ended, ran, taken, again, ?_, fun several => ?_⟩
  · rw [Session.names, world']
    exact congrArg World.names world
  · have rounds (size : Nat) : size + (options.repeats - 1) * size = options.repeats * size := by
      rw [Nat.add_comm, ← Nat.succ_mul]
      congr 1
      omega
    rw [rounds, rounds, tracks.length_eq listed, ← length_dedup_of_found found,
      ← found.length_eq] at counted'
    exact showCounts_eq counted'

/-- What a run gives, told by parsing each of its files once. -/
theorem run_eq (options : Options) (isTerminal : Bool) (files : String → FileContents) :
    let opened := options.openSession files
    let parse := ParsedFiles.parseAll opened.1 opened.2.1 [] opened.2.2.world
    let diagnostics := opened.2.1.flatMap parse.2.1.diagnostics
    let style : Terminal.Style :=
      ⟨options.color.isColored isTerminal, options.errorLimit.getD Terminal.defaultErrorLimit⟩
    run options isTerminal files =
      { status :=
          if diagnostics.any Diagnostic.isError then Outcome.withErrors else Outcome.success
        output := (if options.command = .check then "" else parse.1) ++
          if 1 < options.repeats then
            statistics options.repeats options.files.length options.files.dedup.length
          else ""
        errors := Terminal.showReport style parse.2.2.names diagnostics } := by
  obtain ⟨later, taken, last, ran, took, again, names, counts⟩ := exists_rounds options files
  unfold run
  generalize options.openSession files = opened at *
  obtain ⟨parent, paths, opened⟩ := opened
  dsimp only at *
  rw [ran]
  dsimp only
  rw [took]
  dsimp only
  rw [again]
  dsimp only
  rw [names]
  congr 2
  split
  · rename_i several
    exact counts several
  · rfl

/-- Repeats change nothing but the statistics: the exit status and the errors are those of a run
without repeats, and so is the output but for one line on the cache. No run ends in a failure of the
engine. -/
theorem run_repeats (options : Options) (isTerminal : Bool) (files : String → FileContents) :
    let once := run { options with repeats := 1 } isTerminal files
    once.status ≠ Outcome.failure ∧ run options isTerminal files =
      { once with
        output := once.output ++
          if 1 < options.repeats then
            statistics options.repeats options.files.length options.files.dedup.length
          else "" } := by
  have many := run_eq options isTerminal files
  have once := run_eq { options with repeats := 1 } isTerminal files
  rw [openSession_repeats] at once
  dsimp only at many once ⊢
  rw [many, once]
  constructor
  · dsimp only
    split <;> decide
  · simp

end Options

end IncrementalFrontend
