import IncrementalFrontend.Proofs.Frontend.FileTrees
import IncrementalFrontend.Proofs.Incremental.Confluence
import IncrementalFrontend.Proofs.Name.Interning
import IncrementalFrontend.Proofs.Types.Carries

/-!
Workspaces: sessions of the front end that run no scripts. What the world replies depends on the names
that were interned before. But names keep their handles, so a session goes on in the same way if the
names that come up later are known from the start. Rules that foresee the names are deterministic, and
all that is known of sessions of deterministic queries holds of workspaces.
-/
namespace IncrementalFrontend

open Frontend (Query Request World rules signature)

variable {names limit : Interner} {path parent : Name} {text : String}

theorem Interner.Keeps.intern_eq (keeps : (names.intern text).2.Keeps limit) :
    limit.intern text = ((names.intern text).1, limit) :=
  Interner.intern_of_find? (keeps _ _ (names.find?_intern text))

namespace SourceUnit

structure IsKnown (unit : SourceUnit) (names : Interner) : Prop where
  path : ∃ text, names.find? text = some unit.path
  name : ∃ text, names.find? text = some unit.name
  parent : ∃ text, names.find? text = some unit.parent

theorem isKnown_ofPath (known : ∃ text, names.find? text = some path)
    (known' : ∃ text, names.find? text = some parent) :
    (ofPath path parent names).1.IsKnown (ofPath path parent names).2 where
  path := known.imp fun _ found => names.keeps_intern _ _ _ found
  name := ⟨_, names.find?_intern _⟩
  parent := known'.imp fun _ found => names.keeps_intern _ _ _ found

theorem ofPath_of_keeps (known : ∃ text, names.find? text = some path)
    (keeps : (ofPath path parent names).2.Keeps limit) :
    (ofPath path parent limit).1 = (ofPath path parent names).1 := by
  obtain ⟨text, found⟩ := known
  have grown := (names.keeps_intern _).trans keeps
  have same : limit.lookup path = names.lookup path := by
    rw [Interner.lookup_of_find? found, Interner.lookup_of_find? (grown _ _ found)]
  unfold ofPath at keeps ⊢
  dsimp only at keeps ⊢
  rw [same, keeps.intern_eq]

/-- A text is parsed to the same if the names that come up in it are known before. -/
theorem parse_of_keeps {unit : SourceUnit} (known : unit.IsKnown names)
    (keeps : (unit.parse text names).2.Keeps limit) :
    (unit.parse text limit).1 = (unit.parse text names).1 := by
  have grown : names.Keeps limit := (TokenList.keeps_ofText _ _).trans keeps
  have same {name : Name} (known : ∃ text, names.find? text = some name) :
      names.Matches limit name name :=
    known.imp fun _ found => ⟨found, grown _ _ found⟩
  have units : (Likeness.byText names limit).Units unit unit :=
    ⟨same known.path, same known.name, same known.parent⟩
  have later : limit.Keeps (unit.parse text limit).2 := TokenList.keeps_ofText _ _
  exact ((renamed_parse text units).mono (keeps.trans later) (.refl _)).eq_of_byText.symm

end SourceUnit

namespace Frontend

/-- The query is no script, and files and texts are meant by names that the interner gave. -/
def Query.IsNamed (names : Interner) : Query → Prop
  | .scripted .. => False
  | .fileText path => ∃ text, names.find? text = some path
  | .parseFile key => key.IsKnown names
  | .parseString key => key.IsKnown names
  | .linkage key => key.file.IsKnown names
  | .composite _ => True

def Request.IsNamed (names : Interner) : Request → Prop
  | .intern _ | .read _ => True
  | .lookup name => ∃ text, names.find? text = some name
  | .unit path parent =>
    (∃ text, names.find? text = some path) ∧ ∃ text, names.find? text = some parent
  | .parse known _ => known.IsKnown names
  | .external _ | .start .. => False

theorem Query.IsNamed.mono {query : Query} (named : query.IsNamed names) (keeps : names.Keeps limit) :
    query.IsNamed limit := by
  cases query with
  | scripted => exact named
  | fileText path => exact named.imp fun _ found => keeps _ _ found
  | parseFile key => exact FileKey.IsKnown.mono named keeps
  | parseString key => exact StringKey.IsKnown.mono named keeps
  | linkage key => exact FileKey.IsKnown.mono named keeps
  | composite => trivial

def spelling : Growth (S := signature) rules :=
  { naming with
    knows := fun (world : World) query => Query.IsNamed world.names query
    asks := fun (world : World) request => Request.IsNamed world.names request
    knows_mono := fun keeps named => named.mono keeps }

theorem ensures_query {α : Type} {query : Query} {next : query.Value → Compute α} {world : World}
    {reads : List Nat} {reports : List Diagnostic}
    {post : World → List Nat → List Diagnostic → α → Prop} (named : query.IsNamed world.names)
    (ensures : ∀ value (later : World) reads, world.names.Keeps later.names →
      Computation.Ensures (S := signature) spelling (next value) later reads reports post) :
    Computation.Ensures (S := signature) spelling (Compute.query query >>= next) world reads reports
      post := by
  refine ⟨named, ?_⟩
  rintro (error | value) later reads keeps
  · trivial
  · exact ensures value later reads keeps

/-- What names a query leads to are known when it leads to them. -/
theorem ensures_named {query : Query} {world : World} (named : query.IsNamed world.names) :
    Computation.Ensures (S := signature) spelling (rules.compute query) world [] []
      fun _ _ _ _ => True := by
  cases query with
  | scripted => exact named.elim
  | fileText path => exact ⟨named, trivial, trivial⟩
  | parseFile key =>
    refine ensures_query named.path fun contents later reads keeps => ?_
    have known : key.IsKnown later.names := named.mono keeps
    refine ⟨⟨known.path, known.parent⟩, ?_⟩
    cases contents with
    | ok text => exact Compute.ensures_parse (SourceUnit.isKnown_ofPath known.path known.parent) trivial
    | error message => trivial
  | parseString key =>
    refine ⟨⟨named.label, named.parent⟩, ?_⟩
    exact Compute.ensures_parse (SourceUnit.isKnown_ofPath named.label named.parent) trivial
  | linkage key => exact ensures_query named fun _ _ _ _ => trivial
  | composite type => trivial

def workspace : Upkeep (S := signature) rules where
  toGrowth := spelling
  holds _ _ _ _ _ := True
  holds_mono _ _ := trivial
  computes := ensures_named

/-- The rules of the front end without scripts, where all names that ever come up are known before. -/
def foreseeing (names : Interner) : Rules signature where
  compute
    | .scripted .. => .pure (0 : Int64)
    | query => Compute.ofQuery query
  isVolatile := Query.isVolatile
  isUnchanged
    | .scripted .., (old : Int64), (new : Int64) => old == new
    | query, old, new => query.isUnchanged old new
  label := Query.label
  references := Query.references
  serve request (world : World) :=
    ((World.serve request { World.start world.files with names }).1, (World.serve request world).2)

/-- The computation passes errors on, and replies to what it asks are the same in all worlds. -/
structure Compute.IsSteady (names : Interner) {α : Type} (computation : Compute α) : Prop where
  propagates : Computation.Propagates (S := signature) computation
  asksOnly : Computation.AsksOnly (S := signature) (fun request => ∀ world other : World,
    ((foreseeing names).serve request world).1 = ((foreseeing names).serve request other).1) computation

namespace Compute.IsSteady

variable {α β : Type}

theorem pure (result : α) : IsSteady names (pure result : Compute α) :=
  ⟨trivial, trivial⟩

theorem bind {computation : Compute α} {next : α → Compute β} (first : computation.IsSteady names)
    (second : ∀ result, (next result).IsSteady names) : (computation >>= next).IsSteady names :=
  ⟨first.propagates.bind fun result => (second result).propagates,
    first.asksOnly.bind fun result => (second result).asksOnly⟩

theorem query (query : Query) : (Compute.query query).IsSteady names := by
  refine ⟨⟨fun _ => rfl, fun _ => trivial⟩, ?_⟩
  rintro (error | value) <;> trivial

theorem world {request : Request} (same : ∀ world other : World,
      ((foreseeing names).serve request world).1 = ((foreseeing names).serve request other).1) :
    (Compute.world request).IsSteady names :=
  ⟨fun _ => trivial, same, fun _ => trivial⟩

theorem parse (unit : SourceUnit) (text : String) : (Compute.parse unit text).IsSteady names := by
  have told (diagnostics : List Diagnostic) :
      IsSteady names (diagnostics.forM (Computation.tell (S := signature))) := by
    induction diagnostics with
    | nil => exact .pure _
    | cons diagnostic rest ih =>
      exact bind ⟨trivial, trivial⟩ fun _ => ih
  exact bind (world fun _ _ => rfl) fun parsed => bind (told parsed.diagnostics) fun _ => .pure _

theorem compute {query : Query} (steady : query.isVolatile = false) :
    IsSteady names ((foreseeing names).compute query) := by
  cases query with
  | scripted => exact .pure _
  | fileText => cases steady
  | parseFile key =>
    refine bind (IsSteady.query _) fun contents => bind (world fun _ _ => rfl) fun unit => ?_
    cases contents with
    | ok text => exact parse unit text
    | error message => exact bind ⟨trivial, trivial⟩ fun _ => .pure _
  | parseString key => exact bind (world fun _ _ => rfl) fun unit => parse unit key.text
  | linkage key => exact bind (IsSteady.query _) fun _ => .pure _
  | composite type => exact .pure type

end Compute.IsSteady

/-- With foreseen names, the queries of the front end depend on the files alone. -/
theorem deterministic_foreseeing (names : Interner) :
    (foreseeing names).Deterministic (World.files : signature.World → String → FileContents) where
  environment_serve request world := by
    cases request <;> rfl
  reply_eq request world other same := by
    show (World.serve request _).1 = (World.serve request _).1
    rw [same]
  steady query steady world other readings reports ending takes :=
    takes.of_asksOnly (Compute.IsSteady.compute steady).asksOnly
      fun request reply same replied => replied.trans (same world other)
  propagates query := by
    cases query with
    | fileText path => exact fun _ _ => trivial
    | scripted kind key => exact trivial
    | parseFile | parseString | linkage | composite => exact (Compute.IsSteady.compute rfl).propagates
  isUnchanged_iff query old new := by
    cases query with
    | fileText path => exact isUnchanged_fileText_iff
    | scripted => exact @beq_iff_eq Int64 _ _ _ _
    | parseFile | parseString => exact @beq_iff_eq SyntaxTree _ _ _ _
    | linkage => exact @beq_iff_eq Linkage _ _ _ _
    | composite => exact @beq_iff_eq Composite _ _ _ _

theorem foresees_foreseeing (limit : Interner) :
    spelling.Foresees (fun world : World => world.names.Keeps limit) (foreseeing limit) where
  within_of_le grows within := grows.trans within
  compute {world query} named := by
    cases query with
    | scripted => exact named.elim
    | fileText | parseFile | parseString | linkage | composite => rfl
  isVolatile _ := rfl
  isUnchanged {world query} named := by
    cases query with
    | scripted => exact named.elim
    | fileText | parseFile | parseString | linkage | composite => rfl
  label := rfl
  references := rfl
  serve {world request} named within := by
    have reply : ((foreseeing limit).serve request world).1 = (World.serve request world).1 := by
      cases request with
      | intern text =>
        show (limit.intern text).1 = (world.names.intern text).1
        rw [Interner.Keeps.intern_eq within]
      | lookup name =>
        obtain ⟨text, found⟩ := named
        exact (Interner.lookup_of_find? (within _ _ found)).trans (Interner.lookup_of_find? found).symm
      | read path => rfl
      | unit path parent => exact SourceUnit.ofPath_of_keeps named.1 within
      | parse unit text => exact SourceUnit.parse_of_keeps named within
      | external | start => exact named.elim
    exact Prod.ext reply rfl

end Frontend

open Frontend (foreseeing foresees_foreseeing deterministic_foreseeing workspace)

namespace Session

/-- What can happen to a workspace. Files stay as they are within a revision, and whatever is
requested or set is meant by names that the session gave. -/
inductive WorkspaceStep : Session → Session → Prop
  | intern (session : Session) (text : String) : WorkspaceStep session (session.intern text).2
  | request (session : Session) (query : Query) : query.IsNamed session.names →
      WorkspaceStep session (session.request query).2
  | set (session : Session) (query : Query) (value : query.Value) (files : String → FileContents) :
      query.IsNamed session.names →
      (Context.unchangedInput? (S := signature) rules session query value = none ∨
        files = session.world.files) →
      WorkspaceStep session
        ((session.set query value).2.updateWorld fun world => { world with files })
  | advance (session : Session) (files : String → FileContents) :
      WorkspaceStep session (session.advance.updateWorld fun world => { world with files })
  | collectGarbage (session : Session) : WorkspaceStep session session.collectGarbage.2
  | hold (session : Session) (handles : List Nat) : WorkspaceStep session { session with handles }
  | report (session : Session) (diagnostic : Diagnostic) :
      WorkspaceStep session (Context.report (S := signature) session diagnostic)
  | takeDiagnostics (session : Session) :
      WorkspaceStep session (Context.takeDiagnostics (S := signature) session).2

def IsWorkspace (session : Session) : Prop :=
  ∃ world collects, Relation.ReflTransGen WorkspaceStep
    (Context.start (S := signature) world collects) session

/-- The session is one of the rules that foresee the names, whichever names come up later. -/
structure IsForeseen (session : Session) : Prop where
  holds : Upkeep.Holds (S := signature) workspace session
  reachable : ∀ limit, session.names.Keeps limit → Context.Reachable (S := signature)
    (foreseeing limit) (SameEnvironment World.files) session

variable {session session' later later' : Session} {query : Query}

theorem isForeseen_start (world : World) (collects : Bool) :
    IsForeseen (Context.start (S := signature) world collects) where
  holds slot memo here := by
    cases (Cache.memo?_empty (S := signature) slot).symm.trans here
  reachable limit _ := ⟨world, collects, .refl⟩

namespace IsForeseen

theorem idle (foreseen : session.IsForeseen) : session.active = [] := by
  obtain ⟨now, sound⟩ := (foreseen.reachable _ (.refl _)).follows (.plain _ _)
  exact sound.active_eq

theorem run (foreseen : session.IsForeseen) (named : query.IsNamed session.names) {depth : Nat}
    {outcome : Except QueryError (Shared query.Value)}
    (ran : Run.request (S := signature) rules depth query session = some (outcome, later)) :
    later.IsForeseen ∧ session.names.Keeps later.names ∧ ∀ limit, later.names.Keeps limit →
      Run.request (S := signature) (foreseeing limit) depth query session = some (outcome, later) := by
  have kept := fun limit => Upkeep.Holds.request foreseen.holds (foresees_foreseeing limit) named
    foreseen.idle ran
  obtain ⟨keeps, holds, -⟩ := kept later.names
  refine ⟨⟨holds, fun limit within => ?_⟩, keeps, fun limit within => (kept limit).2.2 within⟩
  obtain ⟨world, collects, leads⟩ := foreseen.reachable limit (.trans keeps within)
  exact ⟨world, collects, leads.tail (.request ((kept limit).2.2 within))⟩

/-- A step of a workspace is one of the sessions that foresee the names, if the names are kept. -/
theorem of_step (foreseen : session.IsForeseen) (holds : Upkeep.Holds (S := signature) workspace later)
    (keeps : session.names.Keeps later.names)
    (step : ∀ limit, later.names.Keeps limit → Context.Step (S := signature) (foreseeing limit)
      (SameEnvironment World.files) session later) : later.IsForeseen where
  holds := holds
  reachable limit within := by
    obtain ⟨world, collects, leads⟩ := foreseen.reachable limit (.trans keeps within)
    exact ⟨world, collects, leads.tail (step limit within)⟩

theorem step (foreseen : session.IsForeseen) (step : session.WorkspaceStep later) :
    later.IsForeseen := by
  have holds := foreseen.holds
  cases step with
  | intern text =>
    have keeps : session.names.Keeps (session.intern text).2.names := session.names.keeps_intern text
    exact foreseen.of_step (Upkeep.Holds.grow (S := signature) holds keeps) keeps
      fun limit _ => .drift session _ rfl
  | request query named =>
    generalize requested : session.request query = result
    obtain ⟨outcome, later⟩ := result
    obtain ran | ⟨-, rfl⟩ := run_of_request requested
    · exact (foreseen.run named ran).1
    · exact foreseen
  | set query value files named unchanged =>
    have world : (session.set query value).2.world = session.world :=
      Upkeep.world_setInput (S := signature) rules session value
    have keeps : session.names.Keeps (session.set query value).2.world.names := by
      rw [world]
      exact .refl _
    refine foreseen.of_step ?_ keeps fun limit _ => ?_
    · exact Upkeep.Holds.grow (S := signature) (Upkeep.Holds.setInput holds named value) (.refl _)
    · have foresees := foresees_foreseeing limit
      rw [← foresees.unchangedInput?_eq session named value] at unchanged
      have step : Context.Step (S := signature) (foreseeing limit) (SameEnvironment World.files)
        session _ :=
          .setInput session query value { (session.set query value).2.world with files } unchanged
      rw [foresees.setInput_eq session named value] at step
      exact step
  | advance files =>
    have world : session.advance.world = session.world :=
      Upkeep.world_advance (S := signature) rules session
    have keeps : session.names.Keeps session.advance.world.names := by
      rw [world]
      exact .refl _
    refine foreseen.of_step ?_ keeps fun limit _ => ?_
    · exact Upkeep.Holds.grow (S := signature) (Upkeep.Holds.advance holds) (.refl _)
    · have step : Context.Step (S := signature) (foreseeing limit) (SameEnvironment World.files)
        session _ := .advance session { session.advance.world with files }
      rw [(foresees_foreseeing limit).advance_eq session] at step
      exact step
  | collectGarbage =>
    refine foreseen.of_step (Upkeep.Holds.collectGarbage holds) (.refl _) fun limit _ => ?_
    have step : Context.Step (S := signature) (foreseeing limit) (SameEnvironment World.files)
      session _ := .collectGarbage session
    rw [(foresees_foreseeing limit).collectGarbage_eq session] at step
    exact step
  | hold handles => exact foreseen.of_step holds (.refl _) fun _ _ => .hold session handles
  | report diagnostic =>
    have reported : Context.report (S := signature) session diagnostic =
        { session with sink := session.sink.report diagnostic } := by
      simp [Context.report, foreseen.idle, Context.addToFrames]
    refine foreseen.of_step ?_ ?_ fun _ _ => .report session diagnostic
    · rw [reported]
      exact holds
    · rw [reported]
      exact .refl _
  | takeDiagnostics => exact foreseen.of_step holds (.refl _) fun _ _ => .takeDiagnostics session

end IsForeseen

theorem IsWorkspace.isForeseen (reached : session.IsWorkspace) : session.IsForeseen := by
  obtain ⟨world, collects, leads⟩ := reached
  induction leads with
  | refl => exact isForeseen_start world collects
  | tail _ step ih => exact ih.step step

/-- In workspaces with the same files and inputs, whatever else they did before, a query ends in the
same way and delivers the same diagnostics, if the handles that they gave are those of one interner. -/
theorem IsWorkspace.ends_alike (reached : session.IsWorkspace) (reached' : session'.IsWorkspace)
    (files : session'.world.files = session.world.files)
    (inputs : Cache.input? (S := signature) session'.cache = session.cache.input?)
    (named : query.IsNamed session.names) (named' : query.IsNamed session'.names)
    {outcome outcome' : Except QueryError (Shared query.Value)}
    (gets : Context.Gets (S := signature) rules session query outcome later)
    (gets' : Context.Gets (S := signature) rules session' query outcome' later') {limit : Interner}
    (within : later.names.Keeps limit) (within' : later'.names.Keeps limit) :
    outcome'.map (·.value) = outcome.map (·.value) ∧ ∃ diagnostics,
      later.sink = session.sink.append diagnostics ∧
      later'.sink = session'.sink.append diagnostics := by
  have deterministic := deterministic_foreseeing limit
  obtain ⟨depth, ran⟩ := gets
  obtain ⟨depth', ran'⟩ := gets'
  obtain ⟨-, keeps, follows⟩ := reached.isForeseen.run named ran
  obtain ⟨-, keeps', follows'⟩ := reached'.isForeseen.run named' ran'
  have reachable := reached.isForeseen.reachable limit (.trans keeps within)
  have reachable' := reached'.isForeseen.reachable limit (.trans keeps' within')
  obtain ⟨diagnostics, ends, sink⟩ := reachable.ends deterministic ⟨depth, follows limit within⟩
  obtain ⟨diagnostics', ends', sink'⟩ := reachable'.ends deterministic ⟨depth', follows' limit within'⟩
  have snapshots : Context.snapshot (foreseeing limit) session' =
      Context.snapshot (foreseeing limit) session := by
    unfold Context.snapshot Rules.snapshot
    rw [inputs]
    congr 1
    funext request
    exact deterministic.reply_eq request session'.world session.world files
  rw [snapshots] at ends'
  obtain ⟨readings, rfl⟩ := Prod.mk.inj (ends'.unique deterministic ends)
  exact ⟨eq_of_heq (Reading.mk.inj readings).2, diagnostics', sink, sink'⟩

/-- A new session in which named inputs are set is a workspace. -/
theorem isWorkspace_withInputs (world : World) (collects : Bool)
    (inputs : List ((query : signature.Query) × signature.Value query))
    (named : ∀ input ∈ inputs, Query.IsNamed world.names input.1) :
    let fresh : Session := Context.withInputs (S := signature) rules world collects inputs
    fresh.IsWorkspace ∧ fresh.world = world := by
  have start : IsWorkspace (Context.start (S := signature) world collects) := ⟨world, collects, .refl⟩
  have same : (Context.start (S := signature) world collects).world = world := rfl
  unfold Context.withInputs
  generalize Context.start (S := signature) world collects = first at start same
  induction inputs generalizing first with
  | nil => exact ⟨start, same⟩
  | cons input inputs ih =>
    obtain ⟨here, rest⟩ := List.forall_mem_cons.mp named
    have known : Query.IsNamed (Session.names first) input.1 := by
      rw [names, same]
      exact here
    have kept : (Session.set first input.1 input.2).2.world = first.world :=
      Upkeep.world_setInput (S := signature) rules first input.2
    have step := WorkspaceStep.set first input.1 input.2 first.world.files known (.inr rfl)
    rw [updateWorld, kept, ← kept] at step
    obtain ⟨origin, collects, leads⟩ := start
    exact ih rest _ ⟨origin, collects, leads.tail step⟩ (kept.trans same)

/-- A workspace answers as a new session with the same files and inputs, in which the names are known
that the workspace knows afterwards. -/
theorem IsWorkspace.ends_as_new (reached : session.IsWorkspace) (named : query.IsNamed session.names)
    {outcome : Except QueryError (Shared query.Value)}
    (gets : Context.Gets (S := signature) rules session query outcome later) {world : World}
    {collects : Bool} {inputs : List ((query : signature.Query) × signature.Value query)}
    (files : world.files = session.world.files) (knows : later.names.Keeps world.names)
    (known : ∀ input ∈ inputs, Query.IsNamed world.names input.1) :
    let fresh : Session := Context.withInputs (S := signature) rules world collects inputs
    Cache.input? (S := signature) fresh.cache = session.cache.input? →
      ∀ outcome' later', Context.Gets (S := signature) rules fresh query outcome' later' →
        outcome'.map (·.value) = outcome.map (·.value) ∧ ∃ diagnostics,
          later.sink = session.sink.append diagnostics ∧
          later'.sink = fresh.sink.append diagnostics := by
  intro fresh same outcome' later' gets'
  obtain ⟨isNew, begins⟩ : fresh.IsWorkspace ∧ fresh.world = world :=
    isWorkspace_withInputs world collects inputs known
  have names : fresh.names = world.names := congrArg World.names begins
  obtain ⟨depth, ran⟩ := gets
  obtain ⟨depth', ran'⟩ := gets'
  obtain ⟨-, keeps, -⟩ := reached.isForeseen.run named ran
  have named' : query.IsNamed fresh.names := names ▸ named.mono (keeps.trans knows)
  obtain ⟨-, keeps', -⟩ := isNew.isForeseen.run named' ran'
  rw [names] at keeps'
  exact reached.ends_alike isNew ((congrArg World.files begins).trans files) same named named'
    ⟨depth, ran⟩ ⟨depth', ran'⟩ (knows.trans keeps') (.refl _)

end Session

end IncrementalFrontend
