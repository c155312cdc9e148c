import IncrementalFrontend.Parser.Text
import IncrementalFrontend.Proofs.Parser.Acceptance
import IncrementalFrontend.Proofs.Parser.Correspondence
import IncrementalFrontend.Proofs.Token.Walks

/-!
Syntax errors stay inside their braces. A list in braces ends with the brace that matches its opening
brace, whatever is in it; so what stands behind a module is parsed as if it stood alone.
-/
namespace IncrementalFrontend

open Grammar Computability

namespace Parser

variable {source : Source} {before inside mid after : State} {opening : Span}
  {members : Parser Unit} {room : Nat}

/-- Behind an opening brace, all tokens up to the brace that matches it were consumed. If none does,
all tokens were, and the opening brace was reported last. -/
structure State.ClosesBrace (source : Source) (opening : Span) (inside after : State) : Prop where
  matched (place : Nat) : closingBrace? 0 inside.cursor.kinds = some place →
    after.cursor.position = inside.cursor.position + place + 1 ∧
    after.cursor.kinds = inside.cursor.kinds.drop (place + 1) ∧
    ∃ new, after.builder.diagnostics.toList = inside.builder.diagnostics.toList ++ new ∧
      ∀ diagnostic ∈ new, diagnostic.code ≠ .unclosedDelimiter
  unmatched : closingBrace? 0 inside.cursor.kinds = none →
    after.cursor.kind = .endOfFile ∧
    ∃ new, after.builder.diagnostics.toList =
      inside.builder.diagnostics.toList ++ new ++ [unclosedBrace source inside opening]

theorem State.Encloses.closesBrace {word : List TokenKind}
    (encloses : inside.Encloses source opening after word) :
    inside.ClosesBrace source opening after := by
  cases encloses with
  | @closed body balanced reads reports =>
    have kinds : inside.cursor.kinds = body ++ .symbol .braceClose :: after.cursor.kinds := by
      simpa using reads.kinds
    have within : .endOfFile ∉ body := fun ended => reads.inside (List.mem_append_left _ ended)
    have found := balanced.closingBrace?_eq within after.cursor.kinds
    rw [← kinds] at found
    refine ⟨fun place here => ?_, fun missing => ?_⟩
    · cases found.symm.trans here
      refine ⟨?_, ?_, reports⟩
      · rw [reads.position, List.length_append, Nat.add_assoc, List.length_singleton]
      · simp [kinds]
    · cases found.symm.trans missing
  | @ended _ depth walk reads ended reports =>
    have nothing : closingBrace? depth after.cursor.kinds = none := by
      rw [Cursor.kind_eq_first] at ended
      cases kinds : after.cursor.kinds with
      | nil => rfl
      | cons kind rest =>
        obtain rfl : kind = .endOfFile := by rwa [kinds] at ended
        simp [closingBrace?]
    have missing : closingBrace? 0 inside.cursor.kinds = none := by
      rw [reads.kinds, closingBrace?_append reads.inside walk, nothing]
      rfl
    refine ⟨fun place found => ?_, fun _ => ⟨ended, reports⟩⟩
    cases missing.symm.trans found

/-- A list whose members nest closes its brace. -/
theorem closesBrace_of_enclosed {language : Language TokenKind} {avoid : Set TokenKind}
    {nodes : List NodeId} (stops : StopsAtBrace members)
    (parses : Parses nesting room members source inside.openScope language avoid)
    (ran : enclosed members opening source inside = some (.ok nodes, after)) :
    inside.ClosesBrace source opening after ∧ inside.Restores after := by
  obtain ⟨_, -, ⟨⟩⟩ | ⟨mid, first, -, rfl⟩ := enclosed_ran ran
  obtain ⟨word, reads, ends, -⟩ := parses.ran _ mid first
  have nests : inside.openScope.Nests word 0 mid := ends.1
  refine ⟨?_, nests.restores⟩
  rcases stops _ _ _ first with here | ended
  · exact (nests.closed reads here).closesBrace
  · exact (nests.ended reads ended).closesBrace

section

variable {depth : Nat} (fits : depth < source.budget)
include fits

theorem parses_unrolledMembers (before : State) : Parses nesting depth
    (loop () fun _ => memberRound (unroll recoveringStatement depth)) source before
    Grammar.statement∗ {.symbol .braceClose}ᶜ :=
  parses_members fits (parsesMembers_unroll depth fits.le) before

theorem isSome_bracedMembers (few : inside.cursor.kinds.length < depth) :
    (bracedMembers (unroll recoveringStatement depth) opening source inside).isSome := by
  rw [bracedMembers_eq]
  have ends := (parses_unrolledMembers fits inside.openScope).ends few
  obtain ⟨⟨_ | _, mid⟩, ran⟩ := Option.isSome_iff_exists.mp ends
  · rw [enclosed_error ran]
    rfl
  · rw [enclosed_ok ran]
    rfl

omit fits in
theorem succeeds_members (depth : Nat) :
    Succeeds (loop () fun _ => memberRound (unroll recoveringStatement depth)) := by
  refine .loop fun _ => (Succeeds.of_idle idle_flushComments).bind fun _ => ?_
  refine (succeeds_isAt _).bind fun isClosed => succeeds_isAtEnd.bind fun isEnded => ?_
  split
  · exact .pure _
  · exact (succeeds_unroll depth).bind fun _ => .pure _

/-- The body of a module or of a function and a block close their braces. -/
theorem closesBrace_of_bracedMembers {outcome : Except ParseError (List NodeId)}
    (ran : bracedMembers (unroll recoveringStatement depth) opening source inside =
      some (outcome, after)) :
    (∃ nodes, outcome = .ok nodes) ∧ inside.ClosesBrace source opening after ∧
      inside.Restores after := by
  rw [bracedMembers_eq] at ran
  obtain ⟨_, failed, -⟩ | ⟨mid, first, rfl, -⟩ := enclosed_ran ran
  · obtain ⟨_, ⟨⟩⟩ := succeeds_members depth _ _ _ _ failed
  exact ⟨⟨_, rfl⟩, closesBrace_of_enclosed (stopsAtBrace _) (parses_unrolledMembers fits _) ran⟩

end

theorem State.ClosesBrace.idle {last : State} (closes : inside.ClosesBrace source opening after)
    (reads : after.Reads [] last) (silent : after.IsSilent last) :
    inside.ClosesBrace source opening last := by
  have kinds : last.cursor.kinds = after.cursor.kinds := reads.kinds.symm
  have position : last.cursor.position = after.cursor.position := reads.position
  refine ⟨fun place found => ?_, fun missing => ?_⟩
  · rw [kinds, position, silent]
    exact closes.matched place found
  · rw [reads.kind_eq, silent]
    exact closes.unmatched missing

/-- An enumeration that does not fail closes its brace. -/
theorem closesBrace_of_enumDeclaration {visibility : Visibility} {start : Span} {name : Name}
    {rest : List TokenKind}
    (kinds : before.cursor.kinds =
      .keyword .kwEnum :: .identifier name :: .symbol .braceOpen :: rest)
    (ran : enumDeclaration visibility start source before = some (.ok (), after)) :
    State.ClosesBrace source before.cursor.advance.advance.current.span
      ⟨before.cursor.advance.advance.advance, before.builder⟩ after := by
  obtain ⟨-, kinds⟩ := Cursor.kinds_advance kinds TokenKind.noConfusion
  obtain ⟨named, kinds⟩ := Cursor.kinds_advance kinds TokenKind.noConfusion
  obtain ⟨opens, -⟩ := Cursor.kinds_advance kinds TokenKind.noConfusion
  have advances : advance source before =
    some (.ok before.cursor.current, ⟨before.cursor.advance, before.builder⟩) := rfl
  have names : expectIdentifier source ⟨before.cursor.advance, before.builder⟩ =
      some (.ok name, ⟨before.cursor.advance.advance, before.builder⟩) := by
    rw [expectIdentifier_apply]
    simp only [named]
  rw [enumDeclaration_eq, bind_of_ok advances, bind_of_ok names, expectSymbol,
    bind_of_ok (expect_ok opens)] at ran
  obtain ⟨nodes, mid, list, ran⟩ := ok_of_bind ran
  have closes := (closesBrace_of_enclosed (stopsAtBrace _)
    (parses_enumElements (Nat.le_refl _) name) list).1
  obtain ⟨_, last, added, reads, -, silent⟩ :=
    idle_add (.enumDecl name visibility nodes) start source mid
  cases added.symm.trans ran
  exact closes.idle reads silent

end Parser

def Comment.content (comment : Comment) : Name × CommentStyle :=
  (comment.text, comment.style)

def TokenEntry.content (entry : TokenEntry) : TokenKind × List (Name × CommentStyle) :=
  (entry.token.kind, entry.comments.map Comment.content)

def Diagnostic.content (diagnostic : Diagnostic) : DiagnosticCode × Severity × String × List String :=
  (diagnostic.code, diagnostic.severity, diagnostic.message, diagnostic.notes)

namespace Likeness

def contents : Likeness where
  name := Eq
  span _ _ := True
  location _ _ := True
  dummy := trivial
  reach _ _ := trivial

theorem contents_comments {comment comment' : Comment} (same : comment.content = comment'.content) :
    contents.Comments comment comment' :=
  ⟨congrArg Prod.fst same, congrArg Prod.snd same, trivial⟩

theorem Kinds.refl {like : Likeness} (names : ∀ name, like.name name name) (kind : TokenKind) :
    like.Kinds kind kind := by
  cases kind with
  | keyword word => exact .keyword word
  | symbol mark => exact .symbol mark
  | integer value => exact .integer value
  | string content => exact .string (names content)
  | identifier name => exact .identifier (names name)
  | invalid => exact .invalid
  | endOfFile => exact .endOfFile

theorem forall₂_of_map_eq {α β γ : Type} {rel : α → β → Prop} {left : α → γ} {right : β → γ}
    (each : ∀ item item', left item = right item' → rel item item') {items : List α}
    {items' : List β} (same : items.map left = items'.map right) : List.Forall₂ rel items items' := by
  rw [← List.forall₂_eq_eq_eq, List.forall₂_map_left_iff, List.forall₂_map_right_iff] at same
  exact same.imp each

theorem map_eq_of_forall₂ {α β γ : Type} {rel : α → β → Prop} {left : α → γ} {right : β → γ}
    (each : ∀ item item', rel item item' → left item = right item') {items : List α}
    {items' : List β} (pairs : List.Forall₂ rel items items') : items.map left = items'.map right := by
  rw [← List.forall₂_eq_eq_eq, List.forall₂_map_left_iff, List.forall₂_map_right_iff]
  exact pairs.imp each

theorem contents_entries {entry entry' : TokenEntry} (same : entry.content = entry'.content) :
    contents.Entries entry entry' := by
  have kinds : entry.token.kind = entry'.token.kind := congrArg Prod.fst same
  refine ⟨⟨?_, trivial⟩, forall₂_of_map_eq (fun _ _ => contents_comments) (congrArg Prod.snd same)⟩
  rw [kinds]
  exact .refl (fun _ => rfl) _

theorem Nodes.eq_of_contents {node node' : Node} (same : contents.Nodes node node') : node = node' := by
  cases same <;> first | rfl | (rename_i same; cases same; rfl)

theorem Diagnostics.content_eq {diagnostic diagnostic' : Diagnostic}
    (same : contents.Diagnostics diagnostic diagnostic') :
    diagnostic.content = diagnostic'.content := by
  simp [Diagnostic.content, same.code, same.severity, same.message, same.notes]

end Likeness

namespace Builder

/-- The one builder goes on where `front` stands and holds the rest as the other holds all: its
entries, its nodes and its diagnostics, but for ids and places. -/
structure Continues (front own whole : Builder) : Prop where
  topLevel : whole.tree.topLevel =
    front.tree.topLevel ++ own.tree.topLevel.map (· + front.nodes.size)
  nodes : whole.nodes.toList.map (·.node) = front.nodes.toList.map (·.node) ++
    own.nodes.toList.map (·.node.shift front.nodes.size)
  diagnostics : whole.diagnostics.toList.map Diagnostic.content =
    front.diagnostics.toList.map Diagnostic.content ++ own.diagnostics.toList.map Diagnostic.content

def ListsModule (builder : Builder) (comments : List Comment) (name : Name) : Prop :=
  ∃ ids id members, builder.tree.topLevel = ids ++ [id] ∧
    ids.map builder.tree.node? = comments.map (fun comment => some (.comment comment.text comment.style)) ∧
    builder.tree.node? id = some (.moduleDecl name .unmarked false members)

end Builder

namespace Parser

variable {source source' : Source} {before inside mid after : State}

def Setting.behind (source source' : Source) (names : source.names = source'.names) (state : State)
    (unit' : SourceUnit) (ahead : Nat) : Setting where
  like := .contents
  source := source
  source' := source'
  unit := state.builder.unit
  unit' := unit'
  entries := state.cursor.entries
  ahead := ahead
  front := state.builder
  texts := by
    rintro name _ rfl
    rw [names]
  places _ := trivial

section

variable {names : source.names = source'.names} {state : State} {unit' : SourceUnit} {ahead : Nat}

theorem Setting.states_behind {cursor : Cursor} (top : state.builder.scopes = [])
    (rest : List.Forall₂ Likeness.contents.Entries state.cursor.rest cursor.rest)
    (waiting : List.Forall₂ Likeness.contents.Comments state.cursor.waiting cursor.waiting)
    (position : state.cursor.position = ahead + cursor.position) :
    (Setting.behind source source' names state unit' ahead).States state ⟨cursor, .ofUnit unit'⟩ where
  cursor := ⟨rest, waiting, trivial, position, rfl⟩
  builder := by
    refine ⟨⟨[], (List.append_nil _).symm, .nil⟩, (List.append_nil _).symm, ?_,
      ⟨[], (List.append_nil _).symm, .nil⟩, rfl, rfl⟩
    rw [top]
    exact .nil

theorem Setting.continues_of_builders {own whole : Builder} (top : state.builder.scopes = [])
    (builders : (Setting.behind source source' names state unit' ahead).Builders whole own) :
    state.builder.Continues own whole := by
  have entries := builders.topLevel_tree
  obtain ⟨⟨nodes, same, placed⟩, -, -, ⟨told, same', alike⟩, -, -⟩ := builders
  refine ⟨?_, ?_, ?_⟩
  · have front : state.builder.tree.topLevel = state.builder.topLevel.toList := by
      simp [Builder.tree, top]
    rw [front]
    exact entries
  · rw [same, List.map_append]
    refine congrArg _ (Likeness.map_eq_of_forall₂ (fun item item' placed => ?_) placed)
    exact placed.node.eq_of_contents
  · rw [same', List.map_append]
    exact congrArg _ (Likeness.map_eq_of_forall₂ (fun _ _ => (·.content_eq)) alike)

end

theorem Cursor.waiting_advance {cursor : Cursor} (inside : cursor.isAtEnd = false)
    (taken : cursor.waiting = []) :
    cursor.advance.waiting = (cursor.advance.rest.head?.map (·.comments)).getD [] := by
  cases rest : cursor.rest with
  | nil => simp [Cursor.advance, inside, rest, taken]
  | cons entry more => simp [Cursor.advance, inside, rest, taken]

theorem waiting_of_members {member : Parser Unit}
    (ran : loop () (fun _ => memberRound member) source before = some (.ok (), after)) :
    after.cursor.waiting = [] := by
  refine loop_done (·.cursor.waiting = []) (fun _ before result after ran => ?_) ran
  rw [memberRound, bind_of_ok (flushComments_apply source before)] at ran
  have same : (if (before.flush source).cursor.isAt (.symbol .braceClose) ||
      (before.flush source).cursor.isAtEnd then return Round.done ()
      else do member; return Round.again () : Parser (Round Unit Unit)) source (before.flush source) =
        some (.ok (.done result), after) := ran
  split at same
  · cases same
    rfl
  · exact absurd same (again_ne_done _)

structure State.Passes (inside : State) (count : Nat) (after : State) : Prop where
  position : after.cursor.position = inside.cursor.position + count
  entries : after.cursor.entries = inside.cursor.entries
  waiting : after.cursor.waiting = (after.cursor.rest.head?.map (·.comments)).getD []
  scopes : after.builder.scopes = []
  topLevel : after.builder.topLevel = inside.builder.topLevel
  nodes : inside.builder.nodes.toList <+: after.builder.nodes.toList
  reports : ∃ new, after.builder.diagnostics.toList = inside.builder.diagnostics.toList ++ new ∧
    ∀ diagnostic ∈ new, diagnostic.code ≠ .unclosedDelimiter

section

variable {depth : Nat} {junk more : List TokenKind} (fits : depth < source.budget)
  (few : inside.cursor.kinds.length < depth) (top : inside.builder.scopes = [])
include fits few top

/-- What is around a list in braces stays. -/
theorem bracedMembers_extends {outcome : Except ParseError (List NodeId)}
    (ran : bracedMembers (unroll recoveringStatement depth) opening source inside =
      some (outcome, after)) :
    after.cursor.entries = inside.cursor.entries ∧
      inside.builder.nodes.toList <+: after.builder.nodes.toList := by
  let apart : State := ⟨inside.cursor, .ofUnit inside.builder.unit⟩
  have ends : (bracedMembers (unroll recoveringStatement depth) opening source apart).isSome :=
    isSome_bracedMembers fits few
  obtain ⟨⟨outcome', after'⟩, ran'⟩ := Option.isSome_iff_exists.mp ends
  let setting : Setting := .behind source source rfl inside inside.builder.unit 0
  have states : setting.States inside apart := by
    refine Setting.states_behind top ?_ ?_ (Nat.zero_add _).symm
    · exact Likeness.forall₂_of_map_eq (fun _ _ => Likeness.contents_entries) rfl
    · exact Likeness.forall₂_of_map_eq (fun _ _ => Likeness.contents_comments) rfl
  have agree := setting.agree_bracedMembers (setting.agree_unroll depth depth)
    (show setting.like.span opening opening from trivial)
  obtain ⟨-, kept⟩ := agree _ _ _ _ _ _ states ran ran'
  obtain ⟨own, same, -⟩ := kept.builder.nodes
  exact ⟨kept.cursor.entries, own, same.symm⟩

/-- A list that is closed behind its junk ends there. -/
theorem bracedMembers_passes
    (kinds : inside.cursor.kinds = junk ++ .symbol .braceClose :: more)
    (balanced : IsBalanced junk) (within : .endOfFile ∉ junk) :
    ∃ nodes after, bracedMembers (unroll recoveringStatement depth) opening source inside =
      some (.ok nodes, after) ∧ inside.Passes (junk.length + 1) after := by
  have ends : (bracedMembers (unroll recoveringStatement depth) opening source inside).isSome :=
    isSome_bracedMembers fits few
  obtain ⟨⟨outcome, after⟩, ran⟩ := Option.isSome_iff_exists.mp ends
  obtain ⟨⟨nodes, rfl⟩, closes, restores⟩ := closesBrace_of_bracedMembers fits ran
  obtain ⟨entries, kept⟩ := bracedMembers_extends fits few top ran
  have found : closingBrace? 0 inside.cursor.kinds = some junk.length :=
    kinds ▸ balanced.closingBrace?_eq within more
  obtain ⟨position, rest, reports⟩ := closes.matched junk.length found
  obtain ⟨scopes, outer⟩ := List.append_inj' restores.stack rfl
  refine ⟨nodes, after, ran, position, entries, ?_, scopes.trans top, List.singleton_inj.mp outer,
    kept, reports⟩
  -- the members end in front of the brace without waiting comments
  rw [bracedMembers_eq] at ran
  obtain ⟨_, -, ⟨⟩⟩ | ⟨mid, first, -, rfl⟩ := enclosed_ran ran
  have taken := waiting_of_members first
  obtain ⟨word, reads, ⟨nests, -⟩, -⟩ := (parses_unrolledMembers fits _).ran _ mid first
  rcases stopsAtBrace _ _ _ _ first with here | ended
  · have inside : mid.cursor.isAtEnd = false :=
      Bool.eq_false_iff.mpr fun ended => by cases here.symm.trans (Cursor.isAtEnd_iff.mp ended)
    rw [State.close_of_closed here]
    exact Cursor.waiting_advance inside taken
  · have same : inside.cursor.kinds = word ++ mid.cursor.kinds := reads.kinds
    rw [State.close_of_ended ended] at rest
    have rest : mid.cursor.kinds = more := by simpa [kinds] using rest
    rw [kinds, rest, ← List.concat_append] at same
    obtain rfl := List.append_cancel_right same
    have nests : inside.openScope.Nests (junk.concat (.symbol .braceClose)) 0 mid := nests
    obtain ⟨opened, walk, -⟩ := nests.braces
    rw [List.concat_eq_append, openBraces_append, balanced] at walk
    cases walk

end

/-- A module is read if the list in its braces is. -/
theorem unroll_module {depth : Nat} {name : Name} {rest : List TokenKind} {nodes : List NodeId}
    (kinds : before.cursor.kinds =
      .keyword .kwModule :: .identifier name :: .symbol .braceOpen :: rest)
    (ran : bracedMembers (unroll recoveringStatement depth)
      before.cursor.advance.advance.current.span source
      ⟨before.cursor.advance.advance.advance, before.builder⟩ = some (.ok nodes, mid)) :
    ∃ location, unroll recoveringStatement (depth + 1) source before = some (.ok (),
      ⟨mid.cursor, (mid.builder.add (.moduleDecl name .unmarked false nodes) location).2⟩) := by
  obtain ⟨current, kinds⟩ := Cursor.kinds_advance kinds TokenKind.noConfusion
  obtain ⟨named, kinds⟩ := Cursor.kinds_advance kinds TokenKind.noConfusion
  obtain ⟨opens, -⟩ := Cursor.kinds_advance kinds TokenKind.noConfusion
  have spans : currentSpan source before = some (.ok before.cursor.current.span, before) := rfl
  have stays (word : Keyword) (other : word ≠ .kwModule) :
      eat (.keyword word) source before = some (.ok false, before) :=
    eat_absent fun here => other (TokenKind.keyword.inj (here.symm.trans current))
  have unmarked : visibility source before = some (.ok .unmarked, before) := by
    rw [visibility, eatKeyword, bind_of_ok (stays .kwPublic (by decide)), if_neg Bool.false_ne_true,
      eatKeyword, bind_of_ok (stays .kwPrivate (by decide))]
    rfl
  have peeks : kind source before = some (.ok (.keyword .kwModule), before) := current ▸ rfl
  have names : expectIdentifier source ⟨before.cursor.advance, before.builder⟩ =
      some (.ok name, ⟨before.cursor.advance.advance, before.builder⟩) := by
    rw [expectIdentifier_apply]
    simp only [named]
  obtain ⟨location, added⟩ := add_apply (.moduleDecl name .unmarked false nodes)
    before.cursor.current.span source mid
  refine ⟨location, recoveringStatement_ok ?_⟩
  rw [construct_eq, bind_of_ok spans, bind_of_ok unmarked, afterVisibility, bind_of_ok peeks]
  dsimp only
  rw [moduleDeclaration, eatKeyword, bind_of_ok (stays .kwPrototype (by decide)), expectKeyword,
    bind_of_ok (expect_ok current), bind_of_ok names, expectSymbol, bind_of_ok (expect_ok opens),
    bind_of_ok ran, added]

theorem node?_eq_getElem? (tree : SyntaxTree) (id : Nat) :
    tree.node? id = (tree.nodes.toList.map (·.node))[id]? := by
  simp [SyntaxTree.node?]

theorem Builder.add_top {builder : Builder} (top : builder.scopes = []) (node : Node)
    (location : Location) : (builder.add node location).2 =
      ⟨builder.unit, builder.nodes.push ⟨node, location⟩, builder.topLevel.push builder.nodes.size,
        [], builder.diagnostics⟩ := by
  obtain ⟨unit, nodes, topLevel, scopes, diagnostics⟩ := builder
  obtain rfl : scopes = [] := top
  rfl

/-- At the top level, comments are entries in the order in which they wait. -/
theorem State.flush_top (source : Source) (cursor : Cursor) {builder : Builder}
    (top : builder.scopes = []) :
    let after := State.flush source ⟨cursor, builder⟩
    after.builder.scopes = [] ∧
    after.builder.topLevel.toList = builder.topLevel.toList ++
      List.range' builder.nodes.size cursor.waiting.length ∧
    after.builder.nodes.toList.map (·.node) = builder.nodes.toList.map (·.node) ++
      (cursor.waiting.map fun comment => .comment comment.text comment.style) ∧
    after.builder.diagnostics = builder.diagnostics := by
  simp only [State.flush]
  generalize cursor.waiting = comments
  induction comments generalizing builder with
  | nil => exact ⟨top, by simp, by simp, rfl⟩
  | cons comment rest ih =>
    let location := source.lines.location builder.path comment.span
    let added := (builder.add (.comment comment.text comment.style) location).2
    have alone : added = _ := Builder.add_top top _ location
    obtain ⟨scopes, topLevel, nodes, diagnostics⟩ := ih (show added.scopes = [] by rw [alone])
    refine ⟨scopes, topLevel.trans ?_, nodes.trans ?_, diagnostics.trans ?_⟩
    · rw [alone]
      simp [List.range'_succ]
    · rw [alone]
      simp
    · rw [alone]

theorem listsModule_add {builder : Builder} {comments : List Comment} {name : Name}
    {members : List NodeId} {location : Location} (top : builder.scopes = [])
    (topLevel : builder.topLevel.toList = List.range' 0 comments.length)
    (nodes : (comments.map fun comment => .comment comment.text comment.style) <+:
      builder.nodes.toList.map (·.node)) :
    (builder.add (.moduleDecl name .unmarked false members) location).2.ListsModule comments name := by
  obtain ⟨unit, placed, entries, scopes, diagnostics⟩ := builder
  obtain rfl : scopes = [] := top
  obtain ⟨more, nodes⟩ := nodes
  let after := (Builder.add ⟨unit, placed, entries, [], diagnostics⟩
    (.moduleDecl name .unmarked false members) location).2
  have placedAfter : after.tree.nodes.toList.map (·.node) =
      (comments.map fun comment => .comment comment.text comment.style) ++
        (more ++ [.moduleDecl name .unmarked false members]) := by
    rw [← List.append_assoc, nodes]
    simp [after, Builder.add, Builder.store, Builder.attach, Builder.tree]
  refine ⟨List.range' 0 comments.length, placed.size, members, ?_, ?_, ?_⟩
  · rw [← topLevel]
    simp [Builder.add, Builder.store, Builder.attach, Builder.tree]
  · refine List.ext_getElem (by simp) fun place _ inside => ?_
    have inside : place < comments.length := by simpa using inside
    have looks : after.tree.node? place = some (.comment comments[place].text comments[place].style) := by
      rw [node?_eq_getElem?, placedAfter, List.getElem?_append_left (by simpa using inside),
        List.getElem?_map, List.getElem?_eq_getElem inside]
      rfl
    simpa using looks
  · simp [Builder.add, Builder.store, Builder.attach, Builder.tree, SyntaxTree.node?]

structure State.IsBehindModule (comments : List Comment) (name : Name) (rest : List TokenEntry)
    (state : State) : Prop where
  remaining : state.cursor.rest = rest
  waiting : state.cursor.waiting = (rest.head?.map (·.comments)).getD []
  scopes : state.builder.scopes = []
  entries : state.builder.ListsModule comments name
  reports : ∀ diagnostic ∈ state.builder.diagnostics.toList, diagnostic.code ≠ .unclosedDelimiter

section

variable {unit : SourceUnit} {opener named brace closer : TokenEntry} {name : Name}
  {tokens junk rest : List TokenEntry}

/-- Three tokens and a list in braces. -/
theorem advance_header (same : tokens = opener :: named :: brace :: (junk ++ closer :: rest))
    (opens : opener.token.kind = .keyword .kwModule) (hasName : named.token.kind = .identifier name)
    (begins : brace.token.kind = .symbol .braceOpen) (ends : closer.token.kind = .symbol .braceClose)
    {cursor : Cursor} (entries : cursor.entries = tokens) (position : cursor.position = 0) :
    cursor.kinds = .keyword .kwModule :: .identifier name :: .symbol .braceOpen ::
      cursor.advance.advance.advance.kinds ∧
    cursor.advance.advance.advance.kinds =
      junk.map (·.token.kind) ++ .symbol .braceClose :: rest.map (·.token.kind) ∧
    cursor.advance.advance.advance.position = 3 := by
  have all : cursor.rest = tokens := by
    rw [Cursor.rest_eq_drop, entries, position, List.drop_zero]
  have kinds : cursor.kinds = .keyword .kwModule :: .identifier name :: .symbol .braceOpen ::
      (junk.map (·.token.kind) ++ .symbol .braceClose :: rest.map (·.token.kind)) := by
    simp [Cursor.kinds, all, same, opens, hasName, begins, ends]
  obtain ⟨first, further⟩ := Cursor.kinds_advance kinds TokenKind.noConfusion
  obtain ⟨second, further⟩ := Cursor.kinds_advance further TokenKind.noConfusion
  obtain ⟨third, further⟩ := Cursor.kinds_advance further TokenKind.noConfusion
  have atFirst := Cursor.position_advance (Cursor.isAtEnd_eq_false first TokenKind.noConfusion)
  have atSecond := Cursor.position_advance (Cursor.isAtEnd_eq_false second TokenKind.noConfusion)
  have atThird := Cursor.position_advance (Cursor.isAtEnd_eq_false third TokenKind.noConfusion)
  exact ⟨further.symm ▸ kinds, further, by omega⟩

theorem statement_module (same : tokens = opener :: named :: brace :: (junk ++ closer :: rest))
    (opens : opener.token.kind = .keyword .kwModule) (hasName : named.token.kind = .identifier name)
    (begins : brace.token.kind = .symbol .braceOpen) (ends : closer.token.kind = .symbol .braceClose)
    (balanced : IsBalanced (junk.map (·.token.kind)))
    (within : .endOfFile ∉ junk.map (·.token.kind))
    {depth : Nat} (budget : source.budget = depth + 1) (room : tokens.length ≤ depth) :
    ∃ behind, statement source (State.flush source ⟨.ofTokens tokens, .ofUnit unit⟩) =
      some (.ok (), behind) ∧ behind.IsBehindModule opener.comments name rest := by
  have comments : (Cursor.ofTokens tokens).waiting = opener.comments := by
    rw [same]
    rfl
  have top : (Builder.ofUnit unit).scopes = [] := rfl
  obtain ⟨scopes, topLevel, nodes, silent⟩ := State.flush_top source (.ofTokens tokens) top
  have entries : (State.flush source ⟨.ofTokens tokens, .ofUnit unit⟩).cursor.entries = tokens := rfl
  have position : (State.flush source ⟨.ofTokens tokens, .ofUnit unit⟩).cursor.position = 0 := rfl
  generalize State.flush source ⟨.ofTokens tokens, .ofUnit unit⟩ = flushed at *
  obtain ⟨kinds, further, position⟩ := advance_header same opens hasName begins ends entries position
  let inside : State := ⟨flushed.cursor.advance.advance.advance, flushed.builder⟩
  have few : inside.cursor.kinds.length < depth := by
    simp [inside, further, same] at room ⊢
    omega
  have fits : depth < source.budget := by omega
  have top : inside.builder.scopes = [] := scopes
  obtain ⟨members, after, ran, passes⟩ := bracedMembers_passes fits few top further balanced within
  obtain ⟨location, done⟩ := unroll_module kinds ran
  have remaining : after.cursor.rest = rest := by
    have entries : inside.cursor.entries = tokens := by
      simp only [inside, Cursor.entries_advance, entries]
    have position : inside.cursor.position = 3 := position
    rw [Cursor.rest_eq_drop, passes.entries, passes.position, entries, position, same]
    simp [Nat.add_comm 3]
  obtain ⟨new, reports, fine⟩ := passes.reports
  obtain ⟨more, placed⟩ := passes.nodes
  let behind : State :=
    ⟨after.cursor, (after.builder.add (.moduleDecl name .unmarked false members) location).2⟩
  have outer : (after.builder.add (.moduleDecl name .unmarked false members) location).2.scopes = [] := by
    simp [Builder.add, Builder.store, Builder.attach, passes.scopes]
  have told : behind.builder.diagnostics.toList = new := by
    have kept : behind.builder.diagnostics = after.builder.diagnostics := Builder.diagnostics_attach ..
    have quiet : inside.builder.diagnostics = #[] := silent
    simpa [kept, quiet] using reports
  refine ⟨behind, ?_, remaining, remaining ▸ passes.waiting, outer, ?_, told ▸ fine⟩
  · change unroll recoveringStatement source.budget source flushed = _
    rw [budget, done]
  · refine listsModule_add passes.scopes ?_ ?_
    · rw [passes.topLevel]
      exact comments ▸ topLevel
    · rw [← placed, List.map_append]
      exact (comments ▸ nodes) ▸ List.prefix_append ..

end

/-- The first statement of a text is read in the first round. -/
theorem program_of_statement {depth : Nat} (budget : source.budget = depth + 1) {start behind : State}
    (inside : start.cursor.kind ≠ .endOfFile)
    (ran : statement source (start.flush source) = some (.ok (), behind)) :
    program source start = rounds (fun _ => programRound) depth () source behind := by
  have first : programRound source start = some (.ok (.again ()), behind) := by
    have notEnd : (start.flush source).cursor.isAtEnd = false := Cursor.isAtEnd_eq_false rfl inside
    have looks : isAtEnd source (start.flush source) = some (.ok false, start.flush source) :=
      notEnd ▸ rfl
    rw [programRound, bind_of_ok (flushComments_apply ..), bind_of_ok looks,
      if_neg Bool.false_ne_true, bind_of_ok ran]
    rfl
  change rounds (fun _ => programRound) source.budget () source _ = _
  rw [budget, rounds, bind_of_ok first]

theorem buildTokens_ran (tokens : List TokenEntry) (lines : LineIndex) (names : Interner)
    (builder : Builder) : ∃ last, program ⟨lines, names, tokens.length + 2⟩ ⟨.ofTokens tokens, builder⟩ =
      some (.ok (), last) ∧ buildTokens tokens lines names builder = last.builder := by
  let source : Source := ⟨lines, names, tokens.length + 2⟩
  have fits : (State.mk (.ofTokens tokens) builder).cursor.kinds.length < source.budget := by
    simp [Cursor.kinds, Cursor.ofTokens, source]
  obtain ⟨last, _, ran, -⟩ := program_ran fits
  refine ⟨last, ran, ?_⟩
  simp only [source] at ran
  rw [buildTokens, ran]

/-- What stands behind a statement is read as if it stood alone. -/
theorem continues_of_rounds {unit' : SourceUnit} {lines' : LineIndex} {names : Interner}
    {rest rest' : List TokenEntry} {behind : State} (remaining : behind.cursor.rest = rest)
    (waiting : behind.cursor.waiting = (rest.head?.map (·.comments)).getD [])
    (top : behind.builder.scopes = [])
    (alike : rest.map TokenEntry.content = rest'.map TokenEntry.content)
    {source : Source} (sameNames : source.names = names) {count : Nat} {last : State}
    (ran : rounds (fun _ => programRound) count () source behind = some (.ok (), last)) :
    behind.builder.Continues (buildTokens rest' lines' names (.ofUnit unit')) last.builder := by
  obtain ⟨last', ran', built⟩ := buildTokens_ran rest' lines' names (.ofUnit unit')
  rw [built]
  let source' : Source := ⟨lines', names, rest'.length + 2⟩
  let setting : Setting := .behind source source' sameNames behind unit' behind.cursor.position
  have pairs : List.Forall₂ Likeness.contents.Entries rest rest' :=
    Likeness.forall₂_of_map_eq (fun _ _ => Likeness.contents_entries) alike
  have states : setting.States behind ⟨.ofTokens rest', .ofUnit unit'⟩ := by
    refine Setting.states_behind top ?_ ?_ (Nat.add_zero _).symm
    · rw [remaining]
      exact pairs
    · rw [waiting]
      cases pairs with
      | nil => exact .nil
      | cons first others => exact first.comments
  have agree : setting.Agree Eq (rounds (fun _ => programRound) count ())
      (rounds (fun _ => programRound) source'.budget ()) :=
    .rounds Eq (fun _ _ _ => setting.agree_programRound) count source'.budget rfl
  exact Setting.continues_of_builders top (agree _ _ _ _ _ _ states ran ran').2.builder

/-- Syntax errors stay inside their braces. A module's or function's body, a block, and an enumeration
that does not fail end with the brace that matches their opening brace; if there is none, that is
reported of the opening brace, and of no other. So whatever stands in a module, behind it the parser
finds what it would find without the module. -/
theorem errors_stay_in_braces :
    (∀ (source : Source) (depth : Nat) (opening : Span) (inside : State), depth < source.budget →
      (inside.cursor.kinds.length < depth →
        (bracedMembers (unroll recoveringStatement depth) opening source inside).isSome) ∧
      ∀ outcome after, bracedMembers (unroll recoveringStatement depth) opening source inside =
          some (outcome, after) →
        (∃ nodes, outcome = .ok nodes) ∧ inside.ClosesBrace source opening after) ∧
    (∀ (source : Source) (visibility : Visibility) (start : Span) (before after : State) (name : Name)
        (rest : List TokenKind),
      before.cursor.kinds = .keyword .kwEnum :: .identifier name :: .symbol .braceOpen :: rest →
      enumDeclaration visibility start source before = some (.ok (), after) →
      State.ClosesBrace source before.cursor.advance.advance.current.span
        ⟨before.cursor.advance.advance.advance, before.builder⟩ after) ∧
    ∀ (unit unit' : SourceUnit) (lines lines' : LineIndex) (names : Interner)
        (opener named brace closer : TokenEntry) (name : Name) (junk rest rest' tokens : List TokenEntry),
      opener.token.kind = .keyword .kwModule → named.token.kind = .identifier name →
      brace.token.kind = .symbol .braceOpen → closer.token.kind = .symbol .braceClose →
      IsBalanced (junk.map (·.token.kind)) → .endOfFile ∉ junk.map (·.token.kind) →
      rest.map TokenEntry.content = rest'.map TokenEntry.content →
      tokens = opener :: named :: brace :: (junk ++ closer :: rest) →
      let source : Source := ⟨lines, names, tokens.length + 2⟩
      ∃ behind,
        statement source (State.flush source ⟨.ofTokens tokens, .ofUnit unit⟩) = some (.ok (), behind) ∧
        behind.IsBehindModule opener.comments name rest ∧
        behind.builder.Continues (buildTokens rest' lines' names (.ofUnit unit'))
          (buildTokens tokens lines names (.ofUnit unit)) := by
  refine ⟨fun source depth opening inside fits => ⟨fun few => ?_, fun outcome after ran => ?_⟩, ?_, ?_⟩
  · exact isSome_bracedMembers fits few
  · obtain ⟨done, closes, -⟩ := closesBrace_of_bracedMembers fits ran
    exact ⟨done, closes⟩
  · intro source visibility start before after name rest kinds ran
    exact closesBrace_of_enumDeclaration kinds ran
  · intro unit unit' lines lines' names opener named brace closer name junk rest rest' tokens opens
      hasName begins ends balanced within alike same source
    have budget : source.budget = tokens.length + 1 + 1 := rfl
    obtain ⟨behind, ran, isBehind⟩ :=
      statement_module same opens hasName begins ends balanced within budget (Nat.le_succ _)
    obtain ⟨last, whole, built⟩ := buildTokens_ran tokens lines names (.ofUnit unit)
    refine ⟨behind, ran, isBehind, ?_⟩
    have inside : (Cursor.ofTokens tokens).kind ≠ .endOfFile := by
      rw [same, show (Cursor.ofTokens _).kind = opener.token.kind from rfl, opens]
      exact TokenKind.noConfusion
    have further : rounds (fun _ => programRound) (tokens.length + 1) () source behind =
      some (.ok (), last) := (program_of_statement budget inside ran).symm.trans whole
    have names : source.names = names := rfl
    rw [built]
    exact continues_of_rounds isBehind.remaining isBehind.waiting isBehind.scopes alike names further

/-- In a module, a closing parenthesis and a pair of braces; behind it, an identifier without a
semicolon. -/
theorem errors_stay_in_braces_parenthesis :
    let entry (kind : TokenKind) : TokenEntry := ⟨⟨kind, .dummy⟩, []⟩
    let junk := [.symbol .parenClose, .symbol .braceOpen, .symbol .braceClose].map entry
    let rest := [.identifier .empty, .endOfFile].map entry
    let opener := entry (.keyword .kwModule)
    let tokens := opener :: entry (.identifier .empty) :: entry (.symbol .braceOpen) ::
      (junk ++ entry (.symbol .braceClose) :: rest)
    let source : Source := ⟨.ofText "", .blank, tokens.length + 2⟩
    let unit : SourceUnit := ⟨.empty, .empty, .empty⟩
    IsBalanced (junk.map (·.token.kind)) ∧ .endOfFile ∉ junk.map (·.token.kind) ∧
      ∃ behind,
        statement source (State.flush source ⟨.ofTokens tokens, .ofUnit unit⟩) = some (.ok (), behind) ∧
        behind.IsBehindModule [] .empty rest ∧
        behind.builder.Continues (buildTokens rest (.ofText "") .blank (.ofUnit unit))
          (buildTokens tokens (.ofText "") .blank (.ofUnit unit)) := by
  intro entry junk rest opener tokens source unit
  have balanced : IsBalanced (junk.map (·.token.kind)) := by decide
  have within : .endOfFile ∉ junk.map (·.token.kind) := by decide
  exact ⟨balanced, within, errors_stay_in_braces.2.2 unit unit (.ofText "") (.ofText "") .blank opener
    (entry (.identifier .empty)) (entry (.symbol .braceOpen)) (entry (.symbol .braceClose)) .empty junk
    rest rest tokens rfl rfl rfl rfl balanced within rfl rfl⟩

end Parser

end IncrementalFrontend
