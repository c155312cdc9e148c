import IncrementalFrontend.Frontend.Session
import IncrementalFrontend.Proofs.Frontend.Reads
import IncrementalFrontend.Proofs.Incremental.Upkeep
import IncrementalFrontend.Proofs.Parser.Renaming

/-!
Memos of parsed texts. The names that a world knows stay, queries mention known names only, and so
the memo of a text keeps what the text was parsed to when fewer names were known.
-/
namespace IncrementalFrontend

open Frontend (Query World rules signature)

theorem Interner.Keeps.find?_eq {names later : Interner} (keeps : names.Keeps later) {name : Name}
    (known : ∃ text, names.find? text = some name) {text : String}
    (found : later.find? text = some name) : names.find? text = some name := by
  obtain ⟨other, known⟩ := known
  have same : other = text := by
    rw [← lookup_of_find? (keeps _ _ known), lookup_of_find? found]
  exact same ▸ known

namespace StringKey

def parsed (key : StringKey) (names : Interner) : ParsedText × Interner :=
  let (unit, names) := SourceUnit.ofPath key.label key.parent names
  unit.parse key.text names

theorem keeps_parsed (key : StringKey) (names : Interner) : names.Keeps (key.parsed names).2 :=
  .trans (names.keeps_intern _) (TokenList.keeps_ofText _ _)

structure IsKnown (key : StringKey) (names : Interner) : Prop where
  label : ∃ text, names.find? text = some key.label
  parent : ∃ text, names.find? text = some key.parent

theorem IsKnown.mono {key : StringKey} {names later : Interner} (known : key.IsKnown names)
    (keeps : names.Keeps later) : key.IsKnown later where
  label := known.label.imp fun _ found => keeps _ _ found
  parent := known.parent.imp fun _ found => keeps _ _ found

def Parses (key : StringKey) (names : Interner) (tree : SyntaxTree) (diagnostics : List Diagnostic) :
    Prop :=
  ∃ earlier, key.IsKnown earlier ∧ (key.parsed earlier).2.Keeps names ∧
    (key.parsed earlier).1 = ⟨tree, diagnostics⟩

structure Spells (key : StringKey) (names : Interner) (label parent text : String) : Prop where
  label : names.find? label = some key.label
  parent : names.find? parent = some key.parent
  text : key.text = text

variable {key key' : StringKey} {names names' : Interner} {label parent text : String}

theorem Spells.isKnown (spells : key.Spells names label parent text) : key.IsKnown names :=
  ⟨⟨label, spells.label⟩, ⟨parent, spells.parent⟩⟩

theorem Spells.mono {later : Interner} (spells : key.Spells names label parent text)
    (keeps : names.Keeps later) : key.Spells later label parent text :=
  ⟨keeps _ _ spells.label, keeps _ _ spells.parent, spells.text⟩

theorem renamed_parsed (spells : key.Spells names label parent text)
    (spells' : key'.Spells names' label parent text) :
    (Likeness.byText (key.parsed names).2 (key'.parsed names').2).Parses (key.parsed names).1
      (key'.parsed names').1 := by
  have labels : names.Matches names' key.label key'.label := ⟨label, spells.label, spells'.label⟩
  have parents : names.Matches names' key.parent key'.parent :=
    ⟨parent, spells.parent, spells'.parent⟩
  unfold parsed
  dsimp only
  rw [spells.text, spells'.text]
  exact SourceUnit.renamed_parse text (SourceUnit.renamed_ofPath labels parents)

/-- The same texts are parsed alike, whenever that was and whatever else was interned. -/
theorem Parses.renamed {tree tree' : SyntaxTree} {diagnostics diagnostics' : List Diagnostic}
    (parses : key.Parses names tree diagnostics) (spells : key.Spells names label parent text)
    (spells' : key'.Spells names' label parent text)
    (parses' : key'.Parses names' tree' diagnostics') :
    (Likeness.byText names names').Parses ⟨tree, diagnostics⟩ ⟨tree', diagnostics'⟩ := by
  have before {key : StringKey} {names earlier : Interner} (known : key.IsKnown earlier)
      (keeps : (key.parsed earlier).2.Keeps names) (spells : key.Spells names label parent text) :
      key.Spells earlier label parent text := by
    have keeps : earlier.Keeps names := (key.keeps_parsed earlier).trans keeps
    exact ⟨keeps.find?_eq known.label spells.label, keeps.find?_eq known.parent spells.parent,
      spells.text⟩
  obtain ⟨earlier, known, keeps, same⟩ := parses
  obtain ⟨earlier', known', keeps', same'⟩ := parses'
  rw [← same, ← same']
  exact (renamed_parsed (before known keeps spells) (before known' keeps' spells')).mono keeps keeps'

end StringKey

namespace Frontend

def naming : Growth (S := signature) rules where
  le (world later : World) := world.names.Keeps later.names
  knows (world : World) query := world.names.find? "" = some .empty ∧
    ∀ key, query = .parseString key → key.IsKnown world.names
  asks _ _ := True
  refl _ := .refl _
  trans first second := first.trans second
  serve request world := by
    cases request with
    | intern text => exact Interner.keeps_intern _ text
    | unit path parent => exact Interner.keeps_intern _ _
    | parse unit text => exact TokenList.keeps_ofText _ _
    | lookup | read | external | start => exact .refl _
  knows_mono keeps knows :=
    ⟨keeps _ _ knows.1, fun key same => (knows.2 key same).mono keeps⟩

def Compute.AsksKnown {α : Type} (computation : Compute α) : Prop :=
  ∀ (world : World) reads reports, world.names.find? "" = some .empty →
    Computation.Ensures (S := signature) naming computation world reads reports fun _ _ _ _ => True

namespace Compute

theorem asksKnown_query {query : Query} (other : ∀ key, query ≠ .parseString key) :
    (Compute.query query).AsksKnown := by
  intro world reads reports empty
  refine ⟨⟨empty, fun key same => absurd same (other key)⟩, ?_⟩
  rintro (error | value) later reads grows <;> trivial

/-- A script interns the label of a text before it requests its tree. -/
theorem asksKnown_nodes (label text : String) : (script (.nodes label text)).AsksKnown := by
  intro world reads reports empty
  have empty : (world.names.intern label).2.find? "" = some .empty :=
    world.names.keeps_intern label _ _ empty
  refine ⟨trivial, ⟨empty, ?_⟩, ?_⟩
  · rintro _ ⟨⟩
    exact ⟨⟨label, world.names.find?_intern label⟩, ⟨"", empty⟩⟩
  · rintro (error | value) later reads grows <;> trivial

theorem closed_asksKnown : Closed AsksKnown where
  pure _ _ _ _ _ := trivial
  fail _ _ _ _ _ := trivial
  bind first second world reads reports empty := (first world reads reports empty).bind
    fun later reads reports result grows _ => second result later reads reports (grows _ _ empty)
  orElse first second world reads reports empty := (first world reads reports empty).orElse
    fun later reads reports grows => second later reads reports (grows _ _ empty)
  world _ _ _ _ _ := ⟨trivial, trivial⟩
  tell _ _ _ _ _ := trivial
  query _ other := asksKnown_query other
  nodes := asksKnown_nodes

/-- The tree of a text is reported on as the text is parsed. -/
theorem ensures_parse {growth : Growth (S := signature) rules} {unit : SourceUnit} {text : String}
    {world : World} {reads : List Nat} {post : World → List Nat → List Diagnostic → SyntaxTree → Prop}
    (asks : growth.asks world (.parse unit text))
    (ends : let (parsed, names) := unit.parse text world.names
      post { world with names } reads parsed.diagnostics parsed.tree) :
    Computation.Ensures (S := signature) growth (Compute.parse unit text) world reads [] post := by
  have told (diagnostics : List Diagnostic) (world : World) (reports : List Diagnostic)
      (tree : SyntaxTree) (ends : post world reads (reports ++ diagnostics) tree) :
      Computation.Ensures (S := signature) growth
        (diagnostics.forM (Computation.tell (S := signature)) >>= fun _ => pure tree) world reads
          reports post := by
    induction diagnostics generalizing reports with
    | nil =>
      rw [List.append_nil] at ends
      exact ends
    | cons diagnostic rest ih => exact ih (reports ++ [diagnostic]) (by simpa using ends)
  exact ⟨asks, told _ _ _ _ ends⟩

end Compute

def HoldsParse (names : Interner) : (query : Query) → query.Value → List Nat → List Diagnostic → Prop
  | .parseString key, tree, reads, reports => reads = [] ∧ key.Parses names tree reports
  | _, _, _, _ => True

def parsing : Upkeep (S := signature) rules where
  toGrowth := naming
  holds (world : World) := HoldsParse world.names
  holds_mono {world later query value reads reports} keeps holds := by
    cases query with
    | parseString key =>
      obtain ⟨none, earlier, known, kept, same⟩ := holds
      exact ⟨none, earlier, known, kept.trans keeps, same⟩
    | scripted | fileText | parseFile | linkage | composite => trivial
  computes {world query} knows := by
    have asks : Computation.Ensures (S := signature) naming (rules.compute query) world [] []
        fun _ _ _ _ => True := Compute.closed_asksKnown.ofQuery query world [] [] knows.1
    cases query with
    | parseString key =>
      exact ⟨trivial, Compute.ensures_parse trivial ⟨rfl, _, knows.2 key rfl, .refl _, rfl⟩⟩
    | scripted | fileText | parseFile | linkage | composite =>
      exact asks.mono fun _ _ _ _ _ => trivial

variable {fetch : (query : signature.Query) → Run signature (Nat × Shared (signature.Value query))}
  {context : Session} {frame : Frame} {outer : List Frame}

theorem evaluate_parse (unit : SourceUnit) (text : String)
    (active : context.active = frame :: outer) (computing : frame.phase = .computing) :
    Run.evaluate (S := signature) rules fetch (Compute.parse unit text) context =
      some (.ok (unit.parse text context.world.names).1.tree, { context with
        active := { frame with
          diagnostics :=
            frame.diagnostics ++ (unit.parse text context.world.names).1.diagnostics } :: outer
        world := { context.world with names := (unit.parse text context.world.names).2 } }) := by
  let asked : Session :=
    { context with world := { context.world with names := (unit.parse text context.world.names).2 } }
  have active : asked.active = frame :: outer := active
  exact Run.evaluate_forM_tell (S := signature) (.pure _)
    (unit.parse text context.world.names).1.diagnostics active computing

/-- The tree of a text is computed without any other query. -/
theorem exists_execute_parseString
    (fetch : (query : signature.Query) → Run signature (Nat × Shared (signature.Value query)))
    (context : Session) {key : StringKey} {slot : Nat}
    {entry : Entry signature (.parseString key)} (idle : context.active = [])
    (here : context.cache.memo? slot = some ⟨.parseString key, entry⟩) :
    ∃ shared after, Run.execute (S := signature) rules fetch slot (.parseString key) context =
      some (.ok (slot, shared), after) := by
  let unit := SourceUnit.ofPath key.label key.parent context.world.names
  let named : Session := { Context.pushFrame (S := signature) context slot .computing with
    world := { context.world with names := unit.2 } }
  have active : named.active = .start slot .computing :: context.active := rfl
  have computed : Run.evaluate (S := signature) rules fetch (rules.compute (.parseString key))
      (Context.pushFrame (S := signature) context slot .computing) = _ :=
    evaluate_parse unit.1 key.text active rfl
  exact ⟨_, _, Run.execute_eq (S := signature) (Context.cycle?_of_idle rules idle slot) computed rfl here⟩

end Frontend

/-- A request has the result of its run. -/
theorem Session.request_of_run {session : Session} {query : Query}
    {result : Except QueryError (Shared query.Value) × Session}
    (ran : Run.request (S := signature) rules session.depthBound query session = some result) :
    session.request query = result := by
  show ((Run.request (S := signature) rules session.depthBound query).run session).getD _ = _
  exact congrArg (Option.getD · _) ran

end IncrementalFrontend
