import IncrementalFrontend.Proofs.Parser.Declaring
import IncrementalFrontend.Proofs.Parser.Scanning

/-!
A declaration behind a broken statement is kept. Recovery skips what is left of the statement and
stops at the first keyword of the declaration, if that is one of those at which parsing resumes.
The word `ref` begins a variable and is none of them, so a variable that begins with it is skipped.
-/
namespace IncrementalFrontend

open Grammar

namespace Parser

def breakers : List TokenKind :=
  [.endOfFile, .symbol .semicolon, .symbol .braceOpen, .symbol .braceClose, .keyword .kwReturn,
    .keyword .kwPublic, .keyword .kwPrivate] ++ declarationMarks

variable {source : Source} {before mid after : State} {kind : TokenKind} {start : Nat}
  {junk left rest : List TokenEntry} {opener : TokenEntry}

theorem startsDeclaration_eq_false (inert : kind ∉ breakers) : kind.startsDeclaration = false := by
  cases kind with
  | keyword word =>
    cases word <;> first | rfl | exact absurd (by decide) inert
  | _ => rfl

theorem isExpressive_eq_false (opens : kind.startsDeclaration) : kind.isExpressive = false := by
  cases kind with
  | keyword => rfl
  | _ => cases opens

theorem skipRound_inert (inert : before.cursor.kind ∉ breakers) :
    skipRound start 0 source before =
      some (.ok (.again 0), { before with cursor := before.cursor.advance }) := by
  have peeks : Parser.kind source before = some (.ok before.cursor.kind, before) := rfl
  have looks : position source before = some (.ok before.cursor.position, before) := rfl
  have goesOn := startsDeclaration_eq_false inert
  rw [skipRound, bind_of_ok peeks]
  generalize before.cursor.kind = kind at inert goesOn
  have passes : (do
      if kind.startsDeclaration && start < (← position) then
        return .done ()
      let _ ← advance
      return .again 0 : Parser (Round Nat Unit)) source before =
        some (.ok (.again 0), { before with cursor := before.cursor.advance }) := by
    rw [bind_of_ok looks, goesOn]
    rfl
  cases kind with
  | endOfFile => exact absurd (by decide) inert
  | symbol mark => cases mark <;> first | exact passes | exact absurd (by decide) inert
  | _ => exact passes

theorem skipRound_opener (opens : before.cursor.kind.startsDeclaration)
    (further : start < before.cursor.position) :
    skipRound start 0 source before = some (.ok (.done ()), before) := by
  have peeks : Parser.kind source before = some (.ok before.cursor.kind, before) := rfl
  have looks : position source before = some (.ok before.cursor.position, before) := rfl
  rw [skipRound, bind_of_ok peeks]
  generalize before.cursor.kind = kind at opens
  cases kind with
  | keyword word =>
    simp only
    rw [bind_of_ok looks, opens, Bool.true_and, if_pos (decide_eq_true further)]
    rfl
  | _ => cases opens

theorem kind_of_rest {cursor : Cursor} {entry : TokenEntry} (same : cursor.rest = entry :: rest) :
    cursor.kind = entry.token.kind := by
  rw [Cursor.kind, Cursor.current, same]
  rfl

theorem endOfFile_mem_breakers : TokenKind.endOfFile ∈ breakers := by
  decide

theorem ne_endOfFile (inert : kind ∉ breakers) : kind ≠ .endOfFile := by
  rintro rfl
  exact inert endOfFile_mem_breakers

theorem iterate_advance {cursor : Cursor} (same : cursor.rest = junk ++ rest)
    (inert : ∀ entry ∈ junk, entry.token.kind ∉ breakers) :
    (Cursor.advance^[junk.length] cursor).rest = rest ∧
      (Cursor.advance^[junk.length] cursor).position = cursor.position + junk.length := by
  induction junk generalizing cursor with
  | nil => exact ⟨same, rfl⟩
  | cons entry junk ih =>
    obtain ⟨first, others⟩ := List.forall_mem_cons.mp inert
    have inside := ne_endOfFile first
    have moved := Cursor.position_advance (Cursor.isAtEnd_eq_false (kind_of_rest same) inside)
    obtain ⟨remaining, position⟩ := ih (Cursor.rest_advance same inside) others
    refine ⟨remaining, position.trans ?_⟩
    rw [moved, List.length_cons, Nat.add_right_comm, Nat.add_assoc]

/-- What is left of a broken statement is skipped up to the declaration behind it. -/
theorem rounds_skip_inert (count : Nat) (same : before.cursor.rest = left ++ opener :: rest)
    (inert : ∀ entry ∈ left, entry.token.kind ∉ breakers)
    (opens : opener.token.kind.startsDeclaration)
    (further : start < before.cursor.position + left.length) (enough : left.length < count) :
    rounds (skipRound start) count 0 source before =
      some (.ok (), { before with cursor := Cursor.advance^[left.length] before.cursor }) := by
  induction left generalizing before count with
  | nil =>
    obtain ⟨count, rfl⟩ := Nat.exists_eq_succ_of_ne_zero (by omega : count ≠ 0)
    rw [rounds, bind_of_ok (skipRound_opener (kind_of_rest same ▸ opens) further)]
    rfl
  | cons entry left ih =>
    obtain ⟨count, rfl⟩ := Nat.exists_eq_succ_of_ne_zero (by omega : count ≠ 0)
    obtain ⟨first, others⟩ := List.forall_mem_cons.mp inert
    have here : before.cursor.kind ∉ breakers := kind_of_rest same ▸ first
    have inside := ne_endOfFile here
    have position := Cursor.position_advance (Cursor.isAtEnd_eq_false rfl inside)
    rw [List.length_cons] at further enough
    rw [rounds, bind_of_ok (skipRound_inert here)]
    have moved : start < before.cursor.advance.position + left.length := by omega
    exact @ih { before with cursor := before.cursor.advance } count
      (Cursor.rest_advance same (kind_of_rest same ▸ inside)) others moved (by omega)

def leading (source : Source) (state : State) : List NodeId :=
  match expression source state with
  | some (.ok node, _) => [node]
  | _ => []

theorem construct_inert (statement : Parser Unit) (inert : before.cursor.kind ∉ breakers) :
    construct statement source before = expressionStatement source before := by
  have looked : currentSpan source before = some (.ok before.cursor.current.span, before) := rfl
  have peeks : Parser.kind source before = some (.ok before.cursor.kind, before) := rfl
  have notPublic : before.cursor.kind ≠ .keyword .kwPublic := fun same => inert (same ▸ by decide)
  have notPrivate : before.cursor.kind ≠ .keyword .kwPrivate := fun same => inert (same ▸ by decide)
  have unmarked : visibility source before = some (.ok .unmarked, before) := by
    rw [visibility, eatKeyword, bind_of_ok (eat_absent notPublic), if_neg Bool.false_ne_true,
      eatKeyword, bind_of_ok (eat_absent notPrivate)]
    rfl
  rw [construct_eq, bind_of_ok looked, bind_of_ok unmarked, afterVisibility, bind_of_ok peeks]
  generalize before.cursor.kind = kind at inert
  cases kind with
  | keyword word => cases word <;> first | rfl | exact absurd (by decide) inert
  | symbol mark => cases mark <;> first | rfl | exact absurd (by decide) inert
  | _ => rfl

/-- At the top level, a statement of inert tokens fails in front of a declaration or earlier, and has
attached no more than its leading expression. -/
theorem expressionStatement_broken (few : before.cursor.kinds.length < source.budget)
    (top : before.builder.scopes = []) (same : before.cursor.rest = junk ++ opener :: rest)
    (inert : ∀ entry ∈ junk, entry.token.kind ∉ breakers)
    (opens : opener.token.kind.startsDeclaration) :
    ∃ error mid passed left, expressionStatement source before = some (.error error, mid) ∧
      junk = passed ++ left ∧ mid.cursor.rest = left ++ opener :: rest ∧
      mid.cursor = Cursor.advance^[passed.length] before.cursor ∧ mid.builder.scopes = [] ∧
      mid.builder.topLevel.toList = before.builder.topLevel.toList ++ leading source before := by
  have parses : Parses keeping source.budget expression source before Grammar.expression _ :=
    parses_expression (Nat.le_refl _)
  have ends := parses.ends few
  obtain ⟨⟨outcome, mid⟩, ran⟩ := Option.isSome_iff_exists.mp ends
  obtain ⟨scans, keeps⟩ := scans_expression source before outcome mid ran
  obtain ⟨passed, left, rfl, remaining, reached⟩ := scans.stops same (isExpressive_eq_false opens)
  have top : mid.builder.scopes = [] := keeps.scopes.trans top
  cases outcome with
  | error error =>
    refine ⟨error, mid, passed, left, bind_of_error ran, rfl, remaining, reached, top, ?_⟩
    rw [keeps.topLevel, leading, ran, List.append_nil]
  | ok node =>
    let attached : State := { mid with builder := mid.builder.attach node }
    have attaches : attach node source mid = some (.ok (), attached) := rfl
    have here : attached.cursor.kind ≠ .symbol .semicolon := by
      intro ended
      cases left with
      | nil =>
        rw [kind_of_rest remaining] at ended
        rw [ended] at opens
        cases opens
      | cons entry left =>
        have first := inert entry (List.mem_append_right _ List.mem_cons_self)
        rw [← kind_of_rest remaining] at first
        exact first (ended ▸ by decide)
    obtain ⟨error, failed, -⟩ := @expect_error source attached _ here
    have attachment : attached.builder = { mid.builder with topLevel := mid.builder.topLevel.push node } := by
      obtain ⟨cursor, unit, nodes, topLevel, scopes, diagnostics⟩ := mid
      obtain rfl : scopes = [] := top
      rfl
    refine ⟨error, attached, passed, left, ?_, rfl, remaining, reached, ?_, ?_⟩
    · rw [expressionStatement, bind_of_ok ran, bind_of_ok attaches, expectSymbol,
        bind_of_error failed]
    · rw [attachment]
      exact top
    · rw [attachment, leading, ran, ← keeps.topLevel]
      exact Array.toList_push

/-- At the top level, recovery from an error among inert tokens goes on in front of the declaration
behind them. -/
theorem resume_inert {span : Span} (few : left.length < source.budget)
    (top : mid.builder.scopes = []) (same : mid.cursor.rest = left ++ opener :: rest)
    (inert : ∀ entry ∈ left, entry.token.kind ∉ breakers)
    (opens : opener.token.kind.startsDeclaration)
    (further : start < mid.cursor.position + left.length) :
    resume start span 0 source mid = add .erroneous span source
      { mid with cursor := Cursor.advance^[left.length] mid.cursor } := by
  have shallow : mid.builder.depth - 0 = 0 := congrArg List.length top
  have unwound : mid.unwind 0 = mid := by
    rw [State.unwind, Builder.unwindTo, shallow]
    rfl
  have skips : skip start 0 source mid =
      some (.ok (), { mid with cursor := Cursor.advance^[left.length] mid.cursor }) :=
    rounds_skip_inert source.budget same inert opens further few
  have position := (iterate_advance same inert).2
  have stays : State.leave start { mid with cursor := Cursor.advance^[left.length] mid.cursor } =
      { mid with cursor := Cursor.advance^[left.length] mid.cursor } := by
    refine if_neg fun unmoved => ?_
    have unmoved : (Cursor.advance^[left.length] mid.cursor).position = start := unmoved
    omega
  rw [resume_apply, shallow, unwound, bind_of_ok skips, stays]

/-- At the top level, a broken statement becomes an erroneous node, and nothing of the declaration
behind it is skipped. -/
theorem statement_broken (few : before.cursor.kinds.length < source.budget)
    (top : before.builder.scopes = []) (same : before.cursor.rest = junk ++ opener :: rest)
    (broken : junk ≠ []) (inert : ∀ entry ∈ junk, entry.token.kind ∉ breakers)
    (opens : opener.token.kind.startsDeclaration) :
    ∃ after id, statement source before = some (.ok (), after) ∧
      after.cursor = Cursor.advance^[junk.length] before.cursor ∧ after.builder.scopes = [] ∧
      after.builder.topLevel.toList =
        before.builder.topLevel.toList ++ leading source before ++ [id] ∧
      after.builder.tree.node? id = some .erroneous := by
  obtain ⟨depth, budget⟩ : ∃ depth, source.budget = depth + 1 :=
    Nat.exists_eq_succ_of_ne_zero (by omega)
  have here : before.cursor.kind ∉ breakers := by
    obtain ⟨entry, others, rfl⟩ := List.exists_cons_of_ne_nil broken
    exact kind_of_rest same ▸ inert entry List.mem_cons_self
  obtain ⟨error, mid, passed, left, failed, rfl, remaining, reached, scopes, topLevel⟩ :=
    expressionStatement_broken few top same inert opens
  obtain ⟨inertPassed, inertLeft⟩ := List.forall_mem_append.mp inert
  have position := (iterate_advance (same.trans (List.append_assoc ..)) inertPassed).2
  rw [← reached] at position
  have something := List.length_pos_of_ne_nil broken
  -- the failed statement has opened no scope, and reporting its error opens none
  have told : (mid.tell source error).cursor = mid.cursor := State.cursor_tell source error mid
  have kept : (mid.tell source error).builder.scopes = [] ∧
      (mid.tell source error).builder.topLevel = mid.builder.topLevel := by
    rw [State.tell]
    split <;> exact ⟨scopes, rfl⟩
  have enough : left.length < source.budget := by
    simp only [Cursor.kinds, List.length_map, same, List.length_append] at few
    omega
  have further : before.cursor.position <
      (mid.tell source error).cursor.position + left.length := by
    rw [told, position]
    rw [List.length_append] at something
    omega
  have resumes (span : Span) := @resume_inert _ _ _ _ _ _ span enough kept.1
    (told.symm ▸ remaining) inertLeft opens further
  let skipped : State :=
    ⟨Cursor.advance^[left.length] (mid.tell source error).cursor, (mid.tell source error).builder⟩
  have cursor : skipped.cursor = Cursor.advance^[(passed ++ left).length] before.cursor := by
    rw [List.length_append, Nat.add_comm, Function.iterate_add_apply, ← reached, ← told]
  obtain ⟨location, added⟩ := add_apply .erroneous before.cursor.current.span source skipped
  have alone := @Builder.add_top skipped.builder kept.1 .erroneous location
  refine ⟨⟨skipped.cursor, (skipped.builder.add .erroneous location).2⟩, skipped.builder.nodes.size,
    ?_, cursor, ?_, ?_, ?_⟩
  · have shallow : before.builder.depth = 0 := congrArg List.length top
    change unroll recoveringStatement source.budget source before = _
    rw [budget]
    change recoveringStatement (unroll recoveringStatement depth) source before = _
    rw [recoveringStatement_error ((construct_inert _ here).trans failed), recover_apply, shallow,
      resumes, added]
  · rw [alone]
  · rw [alone, Array.toList_push]
    change (mid.tell source error).builder.topLevel.toList ++ _ = _
    rw [kept.2, topLevel]
  · rw [alone]
    simp [Builder.tree, SyntaxTree.node?]

theorem waiting_iterate_advance {cursor : Cursor} {first : TokenEntry} {others : List TokenEntry}
    (same : cursor.rest = first :: (others ++ opener :: rest))
    (inert : ∀ entry ∈ first :: others, entry.token.kind ∉ breakers) :
    (Cursor.advance^[others.length + 1] cursor).waiting =
      cursor.waiting ++ others.flatMap (·.comments) ++ opener.comments := by
  induction others generalizing cursor first with
  | nil =>
    have inside := ne_endOfFile (kind_of_rest same ▸ inert first List.mem_cons_self)
    have notEnd := Cursor.isAtEnd_eq_false rfl inside
    simp [Cursor.advance, notEnd, same]
  | cons second others ih =>
    obtain ⟨here, further⟩ := List.forall_mem_cons.mp inert
    have inside := ne_endOfFile here
    have notEnd := Cursor.isAtEnd_eq_false (kind_of_rest same) inside
    have waiting : cursor.advance.waiting = cursor.waiting ++ second.comments := by
      simp [Cursor.advance, notEnd, same]
    have later := ih (Cursor.rest_advance same inside) further
    rw [Function.iterate_succ_apply, List.length_cons, later, waiting, List.flatMap_cons]
    simp only [List.append_assoc]

def State.flushSome (source : Source) (comments rest : List Comment) (state : State) : State where
  cursor := { state.cursor with waiting := rest }
  builder := (State.flush source ⟨{ state.cursor with waiting := comments }, state.builder⟩).builder

/-- Comments that wait in front of others may as well have been attached before. -/
theorem programRound_flushSome {state : State} {inner outer : List Comment}
    (waiting : state.cursor.waiting = inner ++ outer) :
    programRound source state = programRound source (state.flushSome source inner outer) := by
  refine bind_eq_of_eq _ ?_
  rw [flushComments_apply, flushComments_apply]
  simp only [State.flush, State.flushSome, waiting, List.foldl_append]
  rfl

theorem rounds_flushSome {state : State} {inner outer : List Comment}
    (waiting : state.cursor.waiting = inner ++ outer) (count : Nat) :
    rounds (fun _ => programRound) (count + 1) () source state =
      rounds (fun _ => programRound) (count + 1) () source (state.flushSome source inner outer) :=
  bind_eq_of_eq _ (programRound_flushSome waiting)

end Parser

def Comment.node (comment : Comment) : Node :=
  .comment comment.text comment.style

namespace Builder

def Lists (builder : Builder) (comments : List Comment) (entries : List NodeId) (node : Node)
    (more : List Comment) : Prop :=
  ∃ ids id ids', builder.tree.topLevel = ids ++ entries ++ id :: ids' ∧
    ids.map builder.tree.node? = comments.map (some ·.node) ∧
    builder.tree.node? id = some node ∧
    ids'.map builder.tree.node? = more.map (some ·.node)

theorem map_getElem?_range' {α : Type} (before within behind : List α) :
    (List.range' before.length within.length).map (fun place => (before ++ within ++ behind)[place]?) =
      within.map some := by
  refine List.ext_getElem (by simp) fun place _ inside => ?_
  have inside : place < within.length := by simpa using inside
  simp [List.getElem?_append, inside]

theorem lists_flush {builder : Builder} {comments : List Comment} {entries : List NodeId}
    {id : NodeId} {node : Node} (source : Parser.Source) (cursor : Cursor) (top : builder.scopes = [])
    (topLevel : builder.topLevel.toList = List.range' 0 comments.length ++ entries ++ [id])
    (nodes : comments.map Comment.node <+: builder.nodes.toList.map (·.node))
    (here : builder.tree.node? id = some node) :
    (Parser.State.flush source ⟨cursor, builder⟩).builder.Lists comments entries node cursor.waiting := by
  obtain ⟨scopes, topLevel', nodes', -⟩ := Parser.State.flush_top source cursor top
  obtain ⟨more, nodes⟩ := nodes
  generalize (Parser.State.flush source ⟨cursor, builder⟩).builder = after at *
  have placed (id : NodeId) : after.tree.node? id =
      (builder.nodes.toList.map (·.node) ++ cursor.waiting.map Comment.node)[id]? := by
    rw [Parser.node?_eq_getElem?]
    exact congrArg (·[id]?) nodes'
  refine ⟨List.range' 0 comments.length, id, List.range' builder.nodes.size cursor.waiting.length,
    ?_, ?_, ?_, ?_⟩
  · simp [tree, scopes, topLevel', topLevel]
  · have found := map_getElem?_range' [] (comments.map Comment.node)
      (more ++ cursor.waiting.map Comment.node)
    rw [List.nil_append, ← List.append_assoc, nodes, List.map_map] at found
    refine Eq.trans ?_ found
    simp only [List.length_map, List.length_nil]
    exact List.map_congr_left fun id _ => placed id
  · rw [placed, List.getElem?_append_left, ← here, Parser.node?_eq_getElem?]
    · rfl
    · rw [Parser.node?_eq_getElem?] at here
      exact (List.getElem?_eq_some_iff.mp here).1
  · have found := map_getElem?_range' (builder.nodes.toList.map (·.node))
      (cursor.waiting.map Comment.node) []
    rw [List.append_nil, List.map_map] at found
    refine Eq.trans ?_ found
    simp only [List.length_map, Array.length_toList]
    exact List.map_congr_left fun id _ => placed id

end Builder

namespace Parser

variable {source : Source} {before after : State} {junk rest tokens : List TokenEntry}

/-- A statement at the top level stands on the same tokens and builds on the same nodes. -/
theorem statement_extends (few : before.cursor.kinds.length < source.budget)
    (top : before.builder.scopes = []) (inside : before.cursor.kind ≠ .endOfFile)
    (ran : statement source before = some (.ok (), after)) :
    after.cursor.entries = before.cursor.entries ∧
      before.builder.nodes.toList <+: after.builder.nodes.toList := by
  let apart : State := ⟨before.cursor, .ofUnit before.builder.unit⟩
  have parses : Parses lasting source.budget statement source apart Grammar.statement ∅ :=
    parses_topLevel inside (Nat.le_refl _)
  obtain ⟨⟨outcome', after'⟩, ran'⟩ := Option.isSome_iff_exists.mp (parses.ends few)
  let setting : Setting := .behind source source rfl before before.builder.unit 0
  have states : setting.States before apart := by
    refine Setting.states_behind top ?_ ?_ (Nat.zero_add _).symm
    · exact Likeness.forall₂_of_map_eq (fun _ _ => Likeness.contents_entries) rfl
    · exact Likeness.forall₂_of_map_eq (fun _ _ => Likeness.contents_comments) rfl
  obtain ⟨-, kept⟩ := setting.agree_statement _ _ _ _ _ _ states ran ran'
  obtain ⟨own, same, -⟩ := kept.builder.nodes
  exact ⟨kept.cursor.entries, own, same.symm⟩

def opening (source : Source) (unit : SourceUnit) (tokens : List TokenEntry) : State :=
  State.flush source ⟨.ofTokens tokens, .ofUnit unit⟩

theorem opening_builder (source : Source) (unit : SourceUnit) (tokens : List TokenEntry) :
    (opening source unit tokens).builder.scopes = [] ∧
    (opening source unit tokens).builder.topLevel.toList =
      List.range' 0 (Cursor.ofTokens tokens).waiting.length ∧
    (opening source unit tokens).builder.nodes.toList.map (·.node) =
      (Cursor.ofTokens tokens).waiting.map Comment.node := by
  have top : (Builder.ofUnit unit).scopes = [] := rfl
  obtain ⟨scopes, topLevel, nodes, -⟩ := State.flush_top source (.ofTokens tokens) top
  exact ⟨scopes, topLevel, nodes⟩

section

variable {unit unit' : SourceUnit} {lines lines' : LineIndex} {names : Interner}
  {declaration : List TokenEntry}

/-- What stands behind a statement at the beginning of a text is read as if it stood alone. -/
theorem continues_behind {first : TokenEntry} {others : List TokenEntry} {behind : State}
    {inner : List Comment} (same : tokens = first :: others)
    (inside : first.token.kind ≠ .endOfFile)
    (ran : statement ⟨lines, names, tokens.length + 2⟩
      (opening ⟨lines, names, tokens.length + 2⟩ unit tokens) = some (.ok (), behind))
    (remaining : behind.cursor.rest = rest)
    (waiting : behind.cursor.waiting = inner ++ (rest.head?.map (·.comments)).getD [])
    (top : behind.builder.scopes = []) :
    (behind.flushSome ⟨lines, names, tokens.length + 2⟩ inner
        ((rest.head?.map (·.comments)).getD [])).builder.Continues
      (buildTokens rest lines' names (.ofUnit unit'))
      (buildTokens tokens lines names (.ofUnit unit)) := by
  let source : Source := ⟨lines, names, tokens.length + 2⟩
  obtain ⟨last, whole, built⟩ := buildTokens_ran tokens lines names (.ofUnit unit)
  have starts : (State.mk (.ofTokens tokens) (.ofUnit unit)).cursor.kind ≠ .endOfFile := by
    subst same
    exact inside
  have budget : source.budget = tokens.length + 1 + 1 := rfl
  have further := (program_of_statement budget starts ran).symm.trans whole
  rw [rounds_flushSome waiting] at further
  obtain ⟨scopes, -⟩ := State.flush_top source { behind.cursor with waiting := inner } top
  let next : State := behind.flushSome source inner ((rest.head?.map (·.comments)).getD [])
  have remains : next.cursor.rest = rest := remaining
  have waits : next.cursor.waiting = (rest.head?.map (·.comments)).getD [] := rfl
  have outside : next.builder.scopes = [] := scopes
  have alike : rest.map TokenEntry.content = rest.map TokenEntry.content := rfl
  have sameNames : source.names = names := rfl
  rw [built]
  exact continues_of_rounds remains waits outside alike sameNames further

/-- Behind a broken statement, the tokens from a declaration on are read as if they stood alone. -/
theorem continues_broken (broken : junk ≠ []) (inert : ∀ entry ∈ junk, entry.token.kind ∉ breakers)
    {opener : TokenEntry} (opens : opener.token.kind.startsDeclaration)
    (same : tokens = junk ++ opener :: rest) :
    ∃ front : Builder,
      front.Lists ((junk.head?.map (·.comments)).getD [])
        (leading ⟨lines, names, tokens.length + 2⟩
          (opening ⟨lines, names, tokens.length + 2⟩ unit tokens))
        .erroneous (junk.tail.flatMap (·.comments)) ∧
      front.Continues (buildTokens (opener :: rest) lines' names (.ofUnit unit'))
        (buildTokens tokens lines names (.ofUnit unit)) := by
  let source : Source := ⟨lines, names, tokens.length + 2⟩
  obtain ⟨first, others, rfl⟩ := List.exists_cons_of_ne_nil broken
  obtain ⟨scopes, topLevel, nodes⟩ := opening_builder source unit tokens
  have comments : (Cursor.ofTokens tokens).waiting = first.comments := by
    subst same
    rfl
  have few : (opening source unit tokens).cursor.kinds.length < source.budget := by
    simp [opening, State.flush, Cursor.clearComments, Cursor.kinds, Cursor.ofTokens, source]
  have here : (opening source unit tokens).cursor.rest = (first :: others) ++ opener :: rest := same
  have inside := ne_endOfFile (inert first List.mem_cons_self)
  have starts : (opening source unit tokens).cursor.kind ≠ .endOfFile :=
    kind_of_rest here ▸ inside
  obtain ⟨behind, id, ran, cursor, top, entries, erroneous⟩ :=
    statement_broken few scopes here broken inert opens
  obtain ⟨-, more⟩ := statement_extends few scopes starts ran
  have remaining := cursor ▸ (iterate_advance here inert).1
  have waiting : behind.cursor.waiting = others.flatMap (·.comments) ++ opener.comments := by
    rw [cursor, List.length_cons, waiting_iterate_advance here inert]
    rfl
  refine ⟨_, Builder.lists_flush source { behind.cursor with waiting := others.flatMap (·.comments) }
    top ?_ ?_ erroneous, continues_behind same inside ran remaining waiting top⟩
  · rw [entries, topLevel, comments]
    rfl
  · obtain ⟨added, more⟩ := more
    rw [← more, List.map_append, nodes, comments]
    exact List.prefix_append ..

def declaredMarks : List TokenKind :=
  [.keyword .kwPublic, .keyword .kwPrivate] ++ declarationMarks

theorem opens_declared : Opens declared (· ∈ declaredMarks) :=
  .maybe_mul (.anyOf (by decide))
    ((opens_declaration Grammar.statement).mono (by simp_all [declaredMarks]))

theorem startsDeclaration_of_mem {kind : TokenKind} (member : kind ∈ declaredMarks)
    (other : kind ≠ .keyword .kwRef) : kind.startsDeclaration := by
  revert kind
  decide

/-- A declaration without errors becomes one entry, and the tokens behind it are read as if they
stood alone. -/
theorem continues_declared (declares : declaration.map (·.token.kind) ∈ declared)
    (same : tokens = declaration ++ rest) :
    ∃ (behind : Builder) (node : Node) (inner : List Comment), node.isDeclaration ∧
      behind.Lists ((declaration.head?.map (·.comments)).getD []) [] node inner ∧
      behind.Continues (buildTokens rest lines' names (.ofUnit unit'))
        (buildTokens tokens lines names (.ofUnit unit)) := by
  let source : Source := ⟨lines, names, tokens.length + 2⟩
  obtain ⟨kind, more, kinds, member⟩ := opens_declared _ declares
  obtain ⟨opener, others, rfl, rfl, -⟩ := List.map_eq_cons_iff.mp kinds
  have inside : opener.token.kind ≠ .endOfFile := by
    intro ended
    rw [ended] at member
    exact absurd member (by decide)
  obtain ⟨scopes, topLevel, nodes⟩ := opening_builder source unit tokens
  have comments : (Cursor.ofTokens tokens).waiting = opener.comments := by
    subst same
    rfl
  have few : (opening source unit tokens).cursor.kinds.length < source.budget := by
    simp [opening, State.flush, Cursor.clearComments, Cursor.kinds, Cursor.ofTokens, source]
  have here : (opening source unit tokens).cursor.rest = opener :: others ++ rest := same
  have starts : (opening source unit tokens).cursor.kind ≠ .endOfFile :=
    kind_of_rest here ▸ inside
  have read : (opening source unit tokens).cursor.kinds =
      (opener :: others).map (·.token.kind) ++ rest.map (·.token.kind) := by
    rw [Cursor.kinds, here, List.map_append]
  obtain ⟨behind, ran, reads, -, ⟨⟨node, location, builder, isDeclaration, stack, built⟩, inner,
    waiting⟩⟩ := statement_declares declares read few
  obtain ⟨entries, grown⟩ := statement_extends few scopes starts ran
  have remaining : behind.cursor.rest = rest := by
    have entries : behind.cursor.entries = tokens := entries
    have position : behind.cursor.position = 0 + (opener :: others).length := by
      rw [reads.position, List.length_map]
      rfl
    rw [Cursor.rest_eq_drop, entries, position, Nat.zero_add, same, List.drop_left]
  rw [remaining] at waiting
  obtain ⟨outside, outer⟩ := List.append_inj' stack rfl
  have outside : builder.scopes = [] := outside.trans scopes
  have alone := Builder.add_top outside node location
  rw [← built] at alone
  have top : behind.builder.scopes = [] := by rw [alone]
  have placed : behind.builder.tree.node? builder.nodes.size = some node := by
    rw [alone]
    simp [Builder.tree, SyntaxTree.node?]
  refine ⟨_, node, inner, isDeclaration, Builder.lists_flush source
    { behind.cursor with waiting := inner } top ?_ ?_ placed,
    continues_behind same inside ran remaining waiting top⟩
  · rw [alone, Array.toList_push, List.singleton_inj.mp outer, topLevel, comments, List.append_nil]
    rfl
  · obtain ⟨added, grown⟩ := grown
    rw [← grown, List.map_append, nodes, comments]
    exact List.prefix_append ..

end

/-- A declaration behind a broken statement is kept. If a statement breaks among tokens that neither
end nor nest a statement nor begin a declaration, and a declaration without errors follows that does
not begin with `ref`, then the statement becomes an erroneous node behind its leading expression; the
entries of the declaration and of what comes behind it follow, comments aside, as if they stood
alone. -/
theorem declaration_after_error (unit unit' unit'' : SourceUnit) (lines lines' lines'' : LineIndex)
    (names : Interner) (junk declaration rest tokens : List TokenEntry) (broken : junk ≠ [])
    (inert : ∀ entry ∈ junk, entry.token.kind ∉ breakers)
    (declares : declaration.map (·.token.kind) ∈ declared)
    (resumes : ∀ opener ∈ declaration.head?, opener.token.kind ≠ .keyword .kwRef)
    (same : tokens = junk ++ (declaration ++ rest)) :
    let source : Source := ⟨lines, names, tokens.length + 2⟩
    ∃ front : Builder,
      front.Lists ((junk.head?.map (·.comments)).getD [])
        (leading source (opening source unit tokens)) .erroneous (junk.tail.flatMap (·.comments)) ∧
      front.Continues (buildTokens (declaration ++ rest) lines' names (.ofUnit unit'))
        (buildTokens tokens lines names (.ofUnit unit)) ∧
      ∃ (behind : Builder) (node : Node) (inner : List Comment), node.isDeclaration ∧
        behind.Lists ((declaration.head?.map (·.comments)).getD []) [] node inner ∧
        behind.Continues (buildTokens rest lines'' names (.ofUnit unit''))
          (buildTokens (declaration ++ rest) lines' names (.ofUnit unit')) := by
  obtain ⟨kind, more, kinds, member⟩ := opens_declared _ declares
  obtain ⟨opener, others, rfl, rfl, -⟩ := List.map_eq_cons_iff.mp kinds
  have opens := startsDeclaration_of_mem (of_decide_eq_true member) (resumes opener rfl)
  obtain ⟨front, lists, continues⟩ := continues_broken broken inert opens same
  exact ⟨front, lists, continues, continues_declared declares rfl⟩

theorem variable_mem_declared {word : Keyword} (begins : word ∈ [Keyword.kwVar, .kwConst, .kwParam, .kwRef])
    (name : Name) : [.keyword word, .identifier name, .symbol .semicolon] ∈ declared := by
  have parts : [TokenKind.keyword word, .identifier name, .symbol .semicolon] =
      [] ++ ([.keyword word] ++ [.identifier name] ++ [] ++ [] ++ [.symbol .semicolon]) := rfl
  have keyword : [TokenKind.keyword word] ∈ keywords [.kwVar, .kwConst, .kwParam, .kwRef] :=
    ⟨_, List.mem_map_of_mem begins, rfl⟩
  rw [parts]
  exact Language.append_mem_mul (.inr rfl) <| .inr <|
    Language.append_mem_mul (Language.append_mem_mul (Language.append_mem_mul
      (Language.append_mem_mul keyword ⟨name, rfl⟩) (.inr rfl)) (.inr rfl)) rfl

/-- Two identifiers without a semicolon, and a constant behind them. -/
theorem declaration_after_error_constant :
    let entry (kind : TokenKind) : TokenEntry := ⟨⟨kind, .dummy⟩, []⟩
    let junk := [.identifier .empty, .identifier .empty].map entry
    let declaration := [.keyword .kwConst, .identifier .empty, .symbol .semicolon].map entry
    let rest := [entry .endOfFile]
    let tokens := junk ++ (declaration ++ rest)
    let source : Source := ⟨.ofText "", .blank, tokens.length + 2⟩
    let unit : SourceUnit := ⟨.empty, .empty, .empty⟩
    junk ≠ [] ∧ (∀ entry ∈ junk, entry.token.kind ∉ breakers) ∧
      declaration.map (·.token.kind) ∈ declared ∧
      (∀ opener ∈ declaration.head?, opener.token.kind ≠ .keyword .kwRef) ∧
      ∃ front : Builder, front.Lists [] (leading source (opening source unit tokens)) .erroneous [] ∧
        front.Continues (buildTokens (declaration ++ rest) (.ofText "") .blank (.ofUnit unit))
          (buildTokens tokens (.ofText "") .blank (.ofUnit unit)) := by
  intro entry junk declaration rest tokens source unit
  have broken : junk ≠ [] := nofun
  have inert : ∀ entry ∈ junk, entry.token.kind ∉ breakers := by decide
  have declares : declaration.map (·.token.kind) ∈ declared :=
    variable_mem_declared (by decide) .empty
  have resumes : ∀ opener ∈ declaration.head?, opener.token.kind ≠ .keyword .kwRef := by decide
  obtain ⟨front, lists, continues, -⟩ := declaration_after_error unit unit unit (.ofText "")
    (.ofText "") (.ofText "") .blank junk declaration rest tokens broken inert declares resumes rfl
  exact ⟨broken, inert, declares, resumes, front, lists, continues⟩

/-- The same with a reference: it is skipped with the broken statement. -/
theorem reference_after_error_lost :
    let entry (kind : TokenKind) : TokenEntry := ⟨⟨kind, .dummy⟩, []⟩
    let junk := [.identifier .empty, .identifier .empty].map entry
    let declaration := [.keyword .kwRef, .identifier .empty, .symbol .semicolon].map entry
    let tokens := junk ++ (declaration ++ [entry .endOfFile])
    junk ≠ [] ∧ (∀ entry ∈ junk, entry.token.kind ∉ breakers) ∧
      declaration.map (·.token.kind) ∈ declared ∧
      let tree := (buildTokens tokens (.ofText "") .blank (.ofUnit ⟨.empty, .empty, .empty⟩)).tree
      tree.topLevel.map tree.node? = [some (.identifier .empty), some .erroneous] := by
  refine ⟨nofun, by decide, variable_mem_declared (by decide) .empty, by decide +kernel⟩

end Parser

end IncrementalFrontend
