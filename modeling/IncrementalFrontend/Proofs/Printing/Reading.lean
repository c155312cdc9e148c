import IncrementalFrontend.Parser.Statement
import IncrementalFrontend.Proofs.Parser.Nesting
import IncrementalFrontend.Proofs.Printing.Program
import IncrementalFrontend.Proofs.Syntax.Grove

/-!
How parsers read what is written. A parser sees the pieces that are left and changes the builder; a
parser is followed step by step, each step with a rule of its own.
-/
namespace IncrementalFrontend

open Program

def Comment.piece (comment : Comment) : Piece :=
  .comment comment.text comment.style

def TokenEntry.pieces (entry : TokenEntry) : List Piece :=
  entry.comments.map Comment.piece ++ [.token entry.token.kind]

/-- The tokens that write some pieces, behind comments that were not yet written. Their places are left
open. -/
def Program.entriesOf (waiting : List Comment) : List Piece → List TokenEntry
  | [] => []
  | .token kind :: rest => ⟨⟨kind, .dummy⟩, waiting⟩ :: entriesOf [] rest
  | .comment text style :: rest => entriesOf (waiting ++ [⟨text, style, .dummy⟩]) rest

/-- All pieces up to the last token are written. -/
theorem Program.pieces_entriesOf (waiting : List Comment) (pieces : List Piece) (kind : TokenKind) :
    (entriesOf waiting (pieces ++ [.token kind])).flatMap TokenEntry.pieces =
      waiting.map Comment.piece ++ (pieces ++ [.token kind]) := by
  induction pieces generalizing waiting with
  | nil => simp [entriesOf, TokenEntry.pieces]
  | cons piece rest ih =>
    cases piece with
    | token kind => simp [entriesOf, TokenEntry.pieces, ih]
    | comment text style => simp [entriesOf, ih, Comment.piece]

def Program.firstKind : List Piece → TokenKind
  | [] => .endOfFile
  | .token kind :: _ => kind
  | .comment .. :: rest => firstKind rest

def Program.Begins (kinds : List TokenKind) (pieces : List Piece) : Prop :=
  ∃ kind ∈ kinds, ∃ rest, pieces = .token kind :: rest

namespace Program.Begins

variable {kinds more : List TokenKind} {kind : TokenKind} {pieces rest : List Piece}

theorem token (member : kind ∈ kinds) : Begins kinds (.token kind :: rest) :=
  ⟨kind, member, rest, rfl⟩

theorem one : Begins [kind] (.token kind :: rest) :=
  token (List.mem_singleton_self kind)

theorem mono (begins : Begins kinds rest) (subset : kinds ⊆ more) : Begins more rest := by
  obtain ⟨kind, member, tail, same⟩ := begins
  exact ⟨kind, subset member, tail, same⟩

theorem marked (begins : Begins kinds rest) {word : Keyword} {isThere : Bool} :
    Begins (.keyword word :: kinds) (written (marked word isThere) ++ rest) := by
  cases isThere with
  | false => exact begins.mono (List.subset_cons_self ..)
  | true => exact token (List.mem_cons_self ..)

theorem led (begins : Begins kinds rest) {leader : TokenKind} {level : Nat}
    {value : Option Expression} : Begins (leader :: kinds) (written (led leader level value) ++ rest) := by
  cases value with
  | none => exact begins.mono (List.subset_cons_self ..)
  | some expression => exact token (List.mem_cons_self ..)

theorem visibility (begins : Begins kinds rest) {shown : Visibility} :
    Begins (.keyword .kwPublic :: .keyword .kwPrivate :: kinds)
      (written (visibilityTokens shown) ++ rest) := by
  cases shown with
  | unmarked => exact begins.mono fun _ member => List.mem_cons_of_mem _ (List.mem_cons_of_mem _ member)
  | _ => exact token (by simp)

theorem firstKind_mem (begins : Begins kinds pieces) : firstKind pieces ∈ kinds := by
  obtain ⟨kind, member, rest, rfl⟩ := begins
  exact member

theorem ne (begins : Begins kinds pieces) (apart : kind ∉ kinds) : firstKind pieces ≠ kind :=
  fun same => apart (same ▸ begins.firstKind_mem)

end Program.Begins

namespace Cursor

variable {cursor : Cursor}

def pieces (cursor : Cursor) : List Piece :=
  cursor.waiting.map Comment.piece ++
    match cursor.rest with
    | [] => []
    | entry :: rest => .token entry.token.kind :: rest.flatMap TokenEntry.pieces

theorem pieces_ofTokens (entries : List TokenEntry) :
    (ofTokens entries).pieces = entries.flatMap TokenEntry.pieces := by
  cases entries with
  | nil => rfl
  | cons entry rest => simp [pieces, ofTokens, TokenEntry.pieces]

theorem kind_eq_firstKind (cursor : Cursor) : cursor.kind = firstKind cursor.pieces := by
  obtain ⟨consumed, rest, waiting⟩ := cursor
  have skip (comments : List Comment) (more : List Piece) :
      firstKind (comments.map Comment.piece ++ more) = firstKind more := by
    induction comments with
    | nil => rfl
    | cons comment rest ih => exact ih
  rw [pieces, skip]
  cases rest <;> rfl

theorem pieces_advance {kind : TokenKind} {rest : List Piece}
    (here : cursor.pieces = .token kind :: rest) (inside : kind ≠ .endOfFile) :
    cursor.advance.pieces = rest := by
  have notEnd : cursor.isAtEnd = false :=
    isAtEnd_eq_false ((kind_eq_firstKind cursor).trans (congrArg firstKind here)) inside
  obtain ⟨consumed, entries, waiting⟩ := cursor
  cases waiting with
  | cons comment more => cases (List.cons.inj here).1
  | nil =>
    cases entries with
    | nil => cases here
    | cons entry more =>
      have same : more.flatMap TokenEntry.pieces = rest := (List.cons.inj here).2
      rw [← same]
      cases more with
      | nil => simp [advance, notEnd, pieces]
      | cons next more => simp [advance, notEnd, pieces, TokenEntry.pieces]

theorem pieces_clearComments {kind : TokenKind} {rest : List Piece}
    (here : cursor.pieces = .token kind :: rest) : cursor.clearComments.pieces = cursor.pieces := by
  obtain ⟨consumed, entries, waiting⟩ := cursor
  cases waiting with
  | cons comment more => cases (List.cons.inj here).1
  | nil => rfl

end Cursor

namespace Builder

def inner (builder : Builder) : List NodeId :=
  match builder.scopes with
  | [] => builder.topLevel.toList
  | members :: _ => members.toList

structure Grows (before : Builder) (ids : List NodeId) (after : Builder) : Prop where
  nodes : before.nodes.toList <+: after.nodes.toList
  inner : after.inner = before.inner ++ ids
  outer : after.stack.tail = before.stack.tail
  diagnostics : after.diagnostics = before.diagnostics

def Ensures (builder : Builder) (fact : SyntaxTree → Prop) : Prop :=
  ∀ tree, builder.nodes.toList <+: tree.nodes.toList → fact tree

variable {before mid after : Builder} {ids more : List NodeId} {fact : SyntaxTree → Prop}

theorem Grows.refl (builder : Builder) : builder.Grows [] builder :=
  ⟨List.prefix_refl _, (List.append_nil _).symm, rfl, rfl⟩

theorem Grows.trans (first : before.Grows ids mid) (second : mid.Grows more after) :
    before.Grows (ids ++ more) after :=
  ⟨first.nodes.trans second.nodes, by rw [second.inner, first.inner, List.append_assoc],
    second.outer.trans first.outer, second.diagnostics.trans first.diagnostics⟩

theorem Ensures.grows (ensures : before.Ensures fact) (grows : before.Grows ids after) :
    after.Ensures fact :=
  fun tree further => ensures tree (grows.nodes.trans further)

theorem Ensures.and {other : SyntaxTree → Prop} (first : before.Ensures fact)
    (second : before.Ensures other) : before.Ensures fun tree => fact tree ∧ other tree :=
  fun tree further => ⟨first tree further, second tree further⟩

/-- What was true stays true beside what was built. -/
theorem Ensures.join {other : SyntaxTree → Prop} (first : before.Ensures fact)
    (grows : before.Grows ids after) (second : after.Ensures other) :
    after.Ensures fun tree => fact tree ∧ other tree :=
  (first.grows grows).and second

theorem Ensures.imp {other : SyntaxTree → Prop} (ensures : before.Ensures fact)
    (implies : ∀ tree, fact tree → other tree) : before.Ensures other :=
  fun tree further => implies tree (ensures tree further)

theorem grows_store (builder : Builder) (node : Node) (location : Location) :
    builder.Grows [] (builder.store node location).2 := by
  refine ⟨?_, (List.append_nil _).symm, rfl, rfl⟩
  simp [store]

theorem grows_attach (builder : Builder) (id : NodeId) : builder.Grows [id] (builder.attach id) := by
  obtain ⟨unit, nodes, topLevel, scopes, diagnostics⟩ := builder
  cases scopes with
  | nil => exact ⟨List.prefix_refl _, by simp [inner, attach], rfl, rfl⟩
  | cons members outer => exact ⟨List.prefix_refl _, by simp [inner, attach], rfl, rfl⟩

theorem grows_add (builder : Builder) (node : Node) (location : Location) :
    builder.Grows [builder.nodes.size] (builder.add node location).2 :=
  (grows_store builder node location).trans (grows_attach _ _)

theorem ensures_store (builder : Builder) (node : Node) (location : Location) :
    (builder.store node location).2.Ensures (·.node? builder.nodes.size = some node) := by
  intro tree further
  obtain ⟨more, same⟩ := further
  have placed : tree.nodes.toList[builder.nodes.size]? = some ⟨node, location⟩ := by
    rw [← same]
    simp [store]
  have placed : tree.nodes[builder.nodes.size]? = some ⟨node, location⟩ := by simpa using placed
  rw [SyntaxTree.node?, placed]
  rfl

theorem ensures_add (builder : Builder) (node : Node) (location : Location) :
    (builder.add node location).2.Ensures (·.node? builder.nodes.size = some node) :=
  (ensures_store builder node location).grows (grows_attach _ _)

/-- What grew in a scope of its own is handed over when the scope ends. -/
theorem Grows.closeScope (grows : before.openScope.Grows ids after) :
    after.closeScope.1 = ids ∧ before.Grows [] after.closeScope.2 := by
  obtain ⟨unit, nodes, topLevel, scopes, diagnostics⟩ := after
  obtain ⟨kept, inside, outer, quiet⟩ := grows
  cases scopes with
  | nil =>
    have length := congrArg List.length outer
    simp [stack, openScope] at length
  | cons members rest =>
    have same : rest ++ [topLevel] = before.stack := outer
    refine ⟨inside, kept, ?_, ?_, quiet⟩
    · rw [List.append_nil]
      obtain ⟨unit', nodes', topLevel', scopes', diagnostics'⟩ := before
      obtain ⟨rfl, last⟩ := List.append_inj' same rfl
      obtain rfl := List.singleton_inj.mp last
      rfl
    · exact congrArg List.tail same

/-- What was attached to a builder without content is the top level of its tree. -/
theorem Grows.topLevel_tree {unit : SourceUnit} (grows : (ofUnit unit).Grows ids after) :
    after.tree.topLevel = ids := by
  obtain ⟨unit, nodes, topLevel, scopes, diagnostics⟩ := after
  obtain ⟨-, inside, outer, -⟩ := grows
  cases scopes with
  | nil => exact inside
  | cons members rest => cases List.append_eq_nil_iff.mp outer |>.2

theorem Ensures.closeScope (ensures : before.Ensures fact) : before.closeScope.2.Ensures fact := by
  intro tree further
  rw [nodes_closeScope] at further
  exact ensures tree further

end Builder

namespace Parser

variable {α β σ : Type} {source : Source} {parser : Parser α} {next : α → Parser β}
  {pieces rest : List Piece} {builder : Builder} {kind : TokenKind}

def Tells (test : Parser Bool) (holds : TokenKind → Bool) : Prop :=
  ∀ source state, test source state = some (.ok (holds state.cursor.kind), state)

theorem tells_isAt (kind : TokenKind) : Tells (isAt kind) (· == kind) :=
  fun _ _ => rfl

/-- With these pieces left, the parser is done if it comes to an end, with a result, pieces and a
builder as described. -/
def Gives (source : Source) (parser : Parser α) (pieces : List Piece) (builder : Builder)
    (post : α → List Piece → Builder → Prop) : Prop :=
  ∀ cursor outcome after, cursor.pieces = pieces →
    parser source ⟨cursor, builder⟩ = some (outcome, after) →
    ∃ result, outcome = .ok result ∧ post result after.cursor.pieces after.builder

namespace Gives

variable {post post' : α → List Piece → Builder → Prop}
  {last : β → List Piece → Builder → Prop}

theorem mono (gives : Gives source parser pieces builder post)
    (implies : ∀ result pieces builder, post result pieces builder → post' result pieces builder) :
    Gives source parser pieces builder post' := by
  intro cursor outcome after here ran
  obtain ⟨result, rfl, holds⟩ := gives cursor outcome after here ran
  exact ⟨result, rfl, implies _ _ _ holds⟩

theorem pure {result : α} (holds : post result pieces builder) :
    Gives source (pure result) pieces builder post := by
  intro cursor outcome after here ran
  cases ran
  exact ⟨result, rfl, here ▸ holds⟩

theorem bind (first : Gives source parser pieces builder fun result pieces builder =>
      Gives source (next result) pieces builder last) :
    Gives source (parser >>= next) pieces builder last := by
  intro cursor outcome after here ran
  obtain ⟨_, failed, -⟩ | ⟨result, mid, start, rest⟩ := ran_of_bind ran
  · obtain ⟨_, ⟨⟩, -⟩ := first cursor _ _ here failed
  · obtain ⟨_, ⟨⟩, gives⟩ := first cursor _ mid here start
    exact gives mid.cursor outcome after rfl rest

/-- A step that is known, and what comes after it. -/
theorem step (steps : ∀ cursor, cursor.pieces = pieces → ∃ result mid,
      parser source ⟨cursor, builder⟩ = some (.ok result, mid) ∧
      Gives source (next result) mid.cursor.pieces mid.builder last) :
    Gives source (parser >>= next) pieces builder last := by
  intro cursor outcome after here ran
  obtain ⟨result, mid, start, gives⟩ := steps cursor here
  rw [bind_of_ok start] at ran
  exact gives mid.cursor outcome after rfl ran

theorem of_bind_pure (gives : Gives source (parser >>= Pure.pure) pieces builder post) :
    Gives source parser pieces builder post := by
  rwa [bind_pure] at gives

theorem tryCatch {handle : ParseError → Parser α} (gives : Gives source parser pieces builder post) :
    Gives source (tryCatch parser handle) pieces builder post := by
  intro cursor outcome after here ran
  rw [tryCatch_apply] at ran
  cases start : parser source ⟨cursor, builder⟩ with
  | none => simp [start] at ran
  | some middle =>
    obtain ⟨ended, mid⟩ := middle
    obtain ⟨result, rfl, holds⟩ := gives cursor ended mid here start
    rw [start] at ran
    cases ran
    exact ⟨result, rfl, holds⟩

theorem recursive {body : Parser α → Parser α}
    (gives : ∀ depth, Gives source (unroll body depth) pieces builder post) :
    Gives source (recursive body) pieces builder post :=
  gives source.budget

theorem loop {start : σ} {round : σ → Parser (Round σ α)}
    (gives : ∀ count, Gives source (rounds round count start) pieces builder post) :
    Gives source (loop start round) pieces builder post :=
  gives source.budget

theorem loopBind {start : σ} {round : σ → Parser (Round σ α)}
    (gives : ∀ count, Gives source (rounds round count start >>= next) pieces builder last) :
    Gives source (Parser.loop start round >>= next) pieces builder last :=
  gives source.budget

theorem bindLoop {start : Parser σ} {round : σ → Parser (Round σ α)}
    (gives : ∀ count, Gives source (start >>= rounds round count) pieces builder post) :
    Gives source (start >>= (Parser.loop · round)) pieces builder post :=
  gives source.budget

theorem exhausted : Gives source exhausted pieces builder post := by
  intro cursor outcome after here ran
  cases ran

theorem advance {next : Token → Parser β} (inside : kind ≠ .endOfFile)
    (gives : ∀ token : Token, token.kind = kind → Gives source (next token) rest builder last) :
    Gives source (advance >>= next) (.token kind :: rest) builder last := by
  refine step fun cursor here => ⟨cursor.current, ⟨cursor.advance, builder⟩, rfl, ?_⟩
  rw [Cursor.pieces_advance here inside]
  exact gives cursor.current ((Cursor.kind_eq_firstKind cursor).trans (congrArg firstKind here))

theorem eat {next : Bool → Parser β} (inside : kind ≠ .endOfFile)
    (gives : Gives source (next true) rest builder last) :
    Gives source (eat kind >>= next) (.token kind :: rest) builder last := by
  refine step fun cursor here => ?_
  have current : cursor.kind = kind :=
    (Cursor.kind_eq_firstKind cursor).trans (congrArg firstKind here)
  refine ⟨true, ⟨cursor.advance, builder⟩, eat_ok current, ?_⟩
  rw [Cursor.pieces_advance here inside]
  exact gives

theorem eatNot {next : Bool → Parser β} (absent : firstKind pieces ≠ kind)
    (gives : Gives source (next false) pieces builder last) :
    Gives source (Parser.eat kind >>= next) pieces builder last := by
  refine step fun cursor here => ?_
  have other : cursor.kind ≠ kind := by
    rwa [Cursor.kind_eq_firstKind, here]
  exact ⟨false, ⟨cursor, builder⟩, eat_absent other, here ▸ gives⟩

theorem expect {next : Token → Parser β} (inside : kind ≠ .endOfFile)
    (gives : ∀ token, Gives source (next token) rest builder last) :
    Gives source (expect kind >>= next) (.token kind :: rest) builder last := by
  refine step fun cursor here => ?_
  have current : cursor.kind = kind :=
    (Cursor.kind_eq_firstKind cursor).trans (congrArg firstKind here)
  refine ⟨cursor.current, ⟨cursor.advance, builder⟩, expect_ok current, ?_⟩
  rw [Cursor.pieces_advance here inside]
  exact gives cursor.current

theorem expectIdentifier {next : Name → Parser β} {name : Name}
    (gives : Gives source (next name) rest builder last) :
    Gives source (expectIdentifier >>= next) (.token (.identifier name) :: rest) builder last := by
  refine step fun cursor here => ?_
  have current : cursor.kind = .identifier name :=
    (Cursor.kind_eq_firstKind cursor).trans (congrArg firstKind here)
  refine ⟨name, ⟨cursor.advance, builder⟩, ?_, ?_⟩
  · rw [expectIdentifier_apply]
    simp only [current]
  · rw [Cursor.pieces_advance here TokenKind.noConfusion]
    exact gives

theorem peekKind {next : TokenKind → Parser β}
    (gives : Gives source (next (firstKind pieces)) pieces builder last) :
    Gives source (Parser.kind >>= next) pieces builder last := by
  refine step fun cursor here => ⟨cursor.kind, ⟨cursor, builder⟩, rfl, ?_⟩
  rw [Cursor.kind_eq_firstKind, here]
  exact gives

theorem current {next : Token → Parser β}
    (gives : ∀ token : Token, token.kind = firstKind pieces →
      Gives source (next token) pieces builder last) :
    Gives source (current >>= next) pieces builder last := by
  refine step fun cursor here => ⟨cursor.current, ⟨cursor, builder⟩, rfl, ?_⟩
  have kind : cursor.current.kind = firstKind pieces := here ▸ Cursor.kind_eq_firstKind cursor
  rw [here]
  exact gives cursor.current kind

theorem test {test : Parser Bool} {holds : TokenKind → Bool} {next : Bool → Parser β}
    (tells : Tells test holds) (gives : Gives source (next (holds (firstKind pieces))) pieces builder last) :
    Gives source (test >>= next) pieces builder last := by
  refine step fun cursor here => ⟨_, ⟨cursor, builder⟩, tells source _, ?_⟩
  rw [Cursor.kind_eq_firstKind, here]
  exact gives

theorem isAt {next : Bool → Parser β} (here : firstKind pieces = kind)
    (gives : Gives source (next true) pieces builder last) :
    Gives source (isAt kind >>= next) pieces builder last :=
  test (tells_isAt kind) (by rwa [here, beq_self_eq_true])

theorem isNotAt {next : Bool → Parser β} (absent : firstKind pieces ≠ kind)
    (gives : Gives source (next false) pieces builder last) :
    Gives source (Parser.isAt kind >>= next) pieces builder last :=
  test (tells_isAt kind) (by rwa [beq_eq_false_iff_ne.mpr absent])

theorem currentSpan {next : Span → Parser β}
    (gives : ∀ span, Gives source (next span) pieces builder last) :
    Gives source (currentSpan >>= next) pieces builder last :=
  step fun cursor here => ⟨cursor.current.span, ⟨cursor, builder⟩, rfl, here ▸ gives _⟩

theorem discardComments {next : Unit → Parser β}
    (gives : Gives source (next ()) (.token kind :: rest) builder last) :
    Gives source (discardComments >>= next) (.token kind :: rest) builder last := by
  refine step fun cursor here => ⟨(), ⟨cursor.clearComments, builder⟩, rfl, ?_⟩
  rw [Cursor.pieces_clearComments here, here]
  exact gives

theorem locate {next : Location → Parser β} {span : Span}
    (gives : ∀ location, Gives source (next location) pieces builder last) :
    Gives source (locate span >>= next) pieces builder last :=
  step fun cursor here => ⟨_, ⟨cursor, builder⟩, rfl, here ▸ gives _⟩

theorem build {change : Builder → α × Builder}
    (gives : Gives source (next (change builder).1) pieces (change builder).2 last) :
    Gives source (build change >>= next) pieces builder last :=
  step fun cursor here => ⟨(change builder).1, ⟨cursor, (change builder).2⟩, rfl, here ▸ gives⟩

theorem store {next : NodeId → Parser β} {node : Node} {start : Span}
    (gives : ∀ id after, builder.Grows [] after → after.Ensures (·.node? id = some node) →
      Gives source (next id) pieces after last) :
    Gives source (store node start >>= next) pieces builder last :=
  step fun cursor here => ⟨_, ⟨cursor, (builder.store node _).2⟩, rfl,
    here ▸ gives _ _ (builder.grows_store node _) (builder.ensures_store node _)⟩

theorem add {next : Unit → Parser β} {node : Node} {start : Span}
    (gives : ∀ id after, builder.Grows [id] after → after.Ensures (·.node? id = some node) →
      Gives source (next ()) pieces after last) :
    Gives source (add node start >>= next) pieces builder last :=
  step fun cursor here => ⟨(), ⟨cursor, (builder.add node _).2⟩, rfl,
    here ▸ gives _ _ (builder.grows_add node _) (builder.ensures_add node _)⟩

theorem attach {next : Unit → Parser β} {id : NodeId}
    (gives : Gives source (next ()) pieces (builder.attach id) last) :
    Gives source (attach id >>= next) pieces builder last :=
  build gives

/-- Where a token is next, there are no comments to attach. -/
theorem flushNone {next : Unit → Parser β}
    (gives : Gives source (next ()) (.token kind :: rest) builder last) :
    Gives source (flushComments >>= next) (.token kind :: rest) builder last := by
  refine step fun cursor here => ?_
  have cleared := (Cursor.pieces_clearComments here).trans here
  have none : cursor.waiting = [] := by
    cases waiting : cursor.waiting with
    | nil => rfl
    | cons comment more => simp [Cursor.pieces, waiting, Comment.piece] at here
  refine ⟨(), _, flushComments_apply source _, ?_⟩
  simp only [State.flush, none, List.foldl_nil, cleared]
  exact gives

/-- The first of the comments is attached, and then the others are. -/
theorem flushOne {next : Unit → Parser β} {text : Name} {style : CommentStyle}
    (gives : ∀ id after, builder.Grows [id] after →
      after.Ensures (·.node? id = some (.comment text style)) →
      Gives source (flushComments >>= next) rest after last) :
    Gives source (flushComments >>= next) (.comment text style :: rest) builder last := by
  intro cursor outcome after here ran
  obtain ⟨consumed, entries, _ | ⟨comment, more⟩⟩ := cursor
  · cases entries <;> cases here
  · obtain ⟨first, others⟩ := List.cons.inj here
    obtain ⟨rfl, rfl⟩ := Piece.comment.inj first
    let location := source.lines.location builder.path comment.span
    have same : (flushComments >>= next) source ⟨⟨consumed, entries, comment :: more⟩, builder⟩ =
        (flushComments >>= next) source ⟨⟨consumed, entries, more⟩,
          (builder.add (.comment comment.text comment.style) location).2⟩ := by
      rw [bind_of_ok (flushComments_apply ..), bind_of_ok (flushComments_apply ..)]
      rfl
    rw [same] at ran
    exact gives _ _ (builder.grows_add _ location) (builder.ensures_add _ location)
      ⟨consumed, entries, more⟩ outcome after others ran

theorem mapError {change : ParseError → ParseError} (gives : Gives source parser pieces builder post) :
    Gives source (mapError change parser) pieces builder post :=
  gives.tryCatch

theorem whileParsing {what : String} {name : Name} (gives : Gives source parser pieces builder post) :
    Gives source (whileParsing what name parser) pieces builder post :=
  step fun cursor here => ⟨_, ⟨cursor, builder⟩, rfl, here ▸ gives.mapError⟩

end Gives

end Parser

end IncrementalFrontend
