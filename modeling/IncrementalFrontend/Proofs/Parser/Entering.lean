import IncrementalFrontend.Proofs.Parser.Drafting

/-!
Statements without a list in braces. Such a statement attaches one entry at most, to the innermost
list, and reports nothing; if it fails, it has still done no more.
-/
namespace IncrementalFrontend

namespace Node

def isOwner : Node → Bool
  | .moduleDecl .. | .enumDecl .. | .block _ => true
  | .functionDecl function => function.body.isSome
  | _ => false

def isErroneous : Node → Bool
  | .erroneous => true
  | _ => false

def isForbidden : Node → Bool
  | .functionDecl function => function.linkage = .external && function.body.isSome
  | _ => false

def isPlain (node : Node) : Bool :=
  !node.isOwner && !node.isErroneous && !node.isComment

theorem isPlain_of_inner {node : Node} (inner : node.isEntry = false) : node.isPlain := by
  cases node <;> first | rfl | cases inner

theorem isOwner_of_isForbidden {node : Node} (forbidden : node.isForbidden) : node.isOwner := by
  cases node with
  | functionDecl function =>
    rw [isForbidden, Bool.and_eq_true] at forbidden
    exact forbidden.2
  | _ => cases forbidden

theorem isErroneous_of_isOwner {node : Node} (owns : node.isOwner) : node.isErroneous = false := by
  cases node <;> first | rfl | cases owns

theorem isComment_of_isOwner {node : Node} (owns : node.isOwner) : node.isComment = false := by
  cases node <;> first | rfl | cases owns

/-- Only owners have members. -/
theorem members_eq_nil_of_not_isOwner {node : Node} (other : node.isOwner = false) :
    node.members = [] := by
  cases node with
  | functionDecl function =>
    have absent : function.body = none := by simpa [isOwner] using other
    rw [members, absent]
    rfl
  | moduleDecl | enumDecl | block => cases other
  | _ => rfl

theorem apart_of_isPlain {node : Node} (plain : node.isPlain) :
    node.isOwner = false ∧ node.isErroneous = false ∧ node.isComment = false := by
  simpa [isPlain, and_assoc] using plain

end Node

namespace Builder

def innermost (builder : Builder) : List NodeId :=
  (builder.stack.headD #[]).toList

@[simp] theorem innermost_attach (builder : Builder) (id : NodeId) :
    (builder.attach id).innermost = builder.innermost ++ [id] := by
  unfold attach innermost stack
  split <;> simp [*]

theorem closeScope_fst {builder : Builder} (opened : builder.depth ≠ 0) :
    builder.closeScope.1 = builder.innermost := by
  unfold depth at opened
  unfold closeScope innermost stack
  split <;> simp_all

end Builder

namespace Parser

variable {α : Type} {source : Source} {base before inside mid now after : State}

structure State.Lists (before : State) (entries : List NodeId) (after : State) : Prop where
  inner : after.builder.innermost = before.builder.innermost ++ entries
  outer : after.builder.stack.tail = before.builder.stack.tail

namespace State.Lists

theorem of_stack (same : after.builder.stack = before.builder.stack) : before.Lists [] after where
  inner := by rw [Builder.innermost, same, List.append_nil, Builder.innermost]
  outer := by rw [same]

theorem trans {entries more : List NodeId} (first : before.Lists entries mid)
    (second : mid.Lists more after) : before.Lists (entries ++ more) after where
  inner := by rw [second.inner, first.inner, List.append_assoc]
  outer := second.outer.trans first.outer

theorem attach (state : State) (id : NodeId) (cursor : Cursor) :
    state.Lists [id] ⟨cursor, state.builder.attach id⟩ :=
  ⟨state.builder.innermost_attach id, state.builder.tail_stack_attach id⟩

end State.Lists

theorem State.Keeps.stack_eq (keeps : before.Keeps after) :
    after.builder.stack = before.builder.stack := by
  rw [Builder.stack, keeps.scopes, keeps.topLevel, Builder.stack]

structure State.Adds (source : Source) (base now : State) (node : Node) (after : State) :
    Prop where
  cursor : after.cursor = now.cursor
  fits : base.Fits source after
  lists : now.Lists [now.builder.nodes.size] after
  silent : now.IsSilent after
  nodes : after.builder.nodes = now.builder.nodes.push
    ⟨node, after.place source base.cursor.position (after.cursor.position - 1)⟩

theorem add_ran {node : Node} {outcome : Except ParseError Unit} (fits : base.Fits source now)
    (moved : base.cursor.position < now.cursor.position)
    (made : ∀ child : Nat, child ∈ node.children →
      base.builder.nodes.size ≤ child ∧ child < now.builder.nodes.size)
    (ordered : node.members.Pairwise (· < ·))
    (ran : add node base.cursor.current.span source now = some (outcome, after)) :
    outcome = .ok () ∧ base.Adds source now node after := by
  let place := now.place source base.cursor.position (now.cursor.position - 1)
  have added : add node base.cursor.current.span source now =
      some (.ok (), { now with builder := (now.builder.add node place).2 }) := by
    simp only [place]
    rw [← place_of_spanFrom fits.toExtends moved]
    rfl
  cases added.symm.trans ran
  let stored := (now.builder.store node place).2
  have nodes : (stored.attach now.builder.nodes.size).nodes =
    now.builder.nodes.push ⟨node, place⟩ := Builder.nodes_attach ..
  have unit : (stored.attach now.builder.nodes.size).unit = now.builder.unit := Builder.unit_attach ..
  have lists := State.Lists.attach ⟨now.cursor, stored⟩ now.builder.nodes.size now.cursor
  have same : place = State.place source ⟨now.cursor, stored.attach now.builder.nodes.size⟩
      base.cursor.position (now.cursor.position - 1) := by
    rw [State.place, Builder.path, unit]
    rfl
  exact ⟨rfl, rfl, fits.push moved made ordered unit nodes, ⟨lists.inner, lists.outer⟩,
    Builder.diagnostics_attach ..,
    nodes.trans (congrArg (fun place => now.builder.nodes.push ⟨node, place⟩) same)⟩

/-- Between two states a statement without a list was read, or part of one. -/
structure State.Enters (source : Source) (before after : State) : Prop where
  fits : before.Fits source after
  silent : before.IsSilent after
  plain : ∀ (id : Nat) placed, before.builder.nodes.size ≤ id →
    after.builder.nodes[id]? = some placed → placed.node.isPlain
  listed : ∃ entries : List NodeId, entries.length ≤ 1 ∧ before.Lists entries after ∧
    ∀ id : Nat, id ∈ entries → before.builder.nodes.size ≤ id ∧ id < after.builder.nodes.size

namespace State.Enters

theorem of_drafts (drafts : before.Drafts source after) : before.Enters source after where
  fits := drafts.fits
  silent := drafts.keeps.diagnostics
  plain id placed new here := Node.isPlain_of_inner (drafts.inner id placed new here)
  listed := ⟨[], Nat.zero_le _, .of_stack drafts.keeps.stack_eq, nofun⟩

/-- A statement may go on behind its entry. -/
theorem andDrafts (enters : before.Enters source mid) (drafts : mid.Drafts source after) :
    before.Enters source after where
  fits := enters.fits.trans drafts.fits
  silent := drafts.keeps.diagnostics.trans enters.silent
  plain id placed new here := by
    by_cases old : id < mid.builder.nodes.size
    · rw [drafts.fits.getElem?_eq old] at here
      exact enters.plain id placed new here
    · exact Node.isPlain_of_inner (drafts.inner id placed (Nat.le_of_not_lt old) here)
  listed := by
    obtain ⟨entries, few, lists, made⟩ := enters.listed
    have later := drafts.fits.size_le
    refine ⟨entries ++ [], by simpa using few, lists.trans (.of_stack drafts.keeps.stack_eq), ?_⟩
    intro id member
    obtain ⟨least, most⟩ := made id (by simpa using member)
    omega

/-- A node in hand is attached. -/
theorem attach {passed : Nat} {id : NodeId} (holds : base.Holds source passed [id] now) :
    base.Enters source ⟨now.cursor, now.builder.attach id⟩ where
  fits := holds.drafts.fits.trans
    (.of_nodes rfl (Nat.le_refl _) (Builder.unit_attach ..) (Builder.nodes_attach ..))
  silent := (Builder.diagnostics_attach ..).trans holds.drafts.keeps.diagnostics
  plain id placed new here := by
    rw [Builder.nodes_attach] at here
    exact Node.isPlain_of_inner (holds.drafts.inner id placed new here)
  listed := by
    have listed := (State.Lists.of_stack holds.drafts.keeps.stack_eq).trans (.attach now id now.cursor)
    refine ⟨[id], Nat.le_refl _, by simpa using listed, fun other member => ?_⟩
    rw [Builder.nodes_attach]
    exact holds.made other member

/-- A node without a list is added to what is in hand. -/
theorem add {passed : Nat} {taken : List NodeId} {node : Node}
    (holds : base.Holds source passed taken now) (adds : base.Adds source now node after)
    (plain : node.isPlain) : base.Enters source after where
  fits := adds.fits
  silent := adds.silent.trans holds.drafts.keeps.diagnostics
  plain id placed new here := by
    rw [adds.nodes, Array.getElem?_push] at here
    split at here
    · obtain rfl := Option.some.inj here
      exact plain
    · exact Node.isPlain_of_inner (holds.drafts.inner id placed new here)
  listed := by
    have listed := (State.Lists.of_stack holds.drafts.keeps.stack_eq).trans adds.lists
    refine ⟨[now.builder.nodes.size], Nat.le_refl _, by simpa using listed, fun id member => ?_⟩
    obtain rfl := List.mem_singleton.mp member
    rw [adds.nodes, Array.size_push]
    exact ⟨holds.drafts.fits.size_le, Nat.lt_succ_self _⟩

end State.Enters

theorem onlyReads_ended (kind : TokenKind) : OnlyReads (do let _ ← expect kind) :=
  (onlyReads_expect kind).bind fun _ => .pure ()

def EntersFrom (source : Source) (base : State) (passed : Nat) (taken : List NodeId)
    (parser : Parser α) : Prop :=
  ∀ before outcome after, base.Holds source passed taken before →
    parser source before = some (outcome, after) →
    before.cursor.Walks after.cursor ∧ base.Enters source after

namespace EntersFrom

variable {β : Type} {passed : Nat} {taken : List NodeId} {parser : Parser α} {next : α → Parser β}
  {given : α → List NodeId}

/-- A parser first takes nodes in hand, and perhaps consumes tokens that count. -/
theorem step {further : Nat} (first : ∀ before outcome mid, base.Holds source passed taken before →
      parser source before = some (outcome, mid) →
      before.cursor.Walks mid.cursor ∧ base.Gives source further given outcome mid)
    (second : ∀ value, EntersFrom source base further (given value) (next value)) :
    EntersFrom source base passed taken (parser >>= next) := by
  intro before outcome after holds ran
  obtain ⟨_, failed, -⟩ | ⟨value, mid, start, rest⟩ := ran_of_bind ran
  · obtain ⟨walks, drafts⟩ := first before _ after holds failed
    exact ⟨walks, .of_drafts drafts⟩
  · obtain ⟨walks, gives⟩ := first before _ mid holds start
    obtain ⟨walks', enters⟩ := second value mid outcome after gives rest
    exact ⟨walks.trans walks', enters⟩

theorem bind (first : DraftsFrom source base passed taken parser given)
    (second : ∀ value, EntersFrom source base passed (given value) (next value)) :
    EntersFrom source base passed taken (parser >>= next) :=
  .step first second

theorem read (reads : OnlyReads parser)
    (second : ∀ value, EntersFrom source base passed taken (next value)) :
    EntersFrom source base passed taken (parser >>= next) :=
  .bind (.of_onlyReads reads taken) second

theorem collect (first : Drafts parser given)
    (second : ∀ value, EntersFrom source base passed (taken ++ given value) (next value)) :
    EntersFrom source base passed taken (parser >>= next) :=
  .bind (.beside first taken) second

theorem identifier {next : Name → Parser β}
    (second : ∀ name, EntersFrom source base (passed + 1) taken (next name)) :
    EntersFrom source base passed taken (expectIdentifier >>= next) :=
  .step (fun _ _ _ holds ran => holds.identifier ran) second

theorem whileParsing_identifier {what : String} {name : Name} {next : Name → Parser β}
    (second : ∀ name, EntersFrom source base (passed + 1) taken (next name)) :
    EntersFrom source base passed taken (whileParsing what name expectIdentifier >>= next) := by
  refine .step (fun before outcome mid holds ran => ?_) second
  have looks : lookup name source before = some (.ok (source.names.lookup name), before) := rfl
  rw [whileParsing, bind_of_ok looks, mapError_apply] at ran
  obtain ⟨⟨ended, mid⟩, ran, ⟨⟩⟩ := Option.map_eq_some_iff.mp ran
  obtain ⟨walks, gives⟩ := holds.identifier ran
  cases ended <;> exact ⟨walks, gives⟩

/-- More tokens may be consumed behind the entry. -/
theorem andRead {rest : Parser β} (first : EntersFrom source base passed taken parser)
    (reads : OnlyReads rest) : EntersFrom source base passed taken (do let _ ← parser; rest) := by
  intro before outcome after holds ran
  obtain ⟨_, failed, -⟩ | ⟨value, mid, start, goesOn⟩ := ran_of_bind ran
  · exact first before _ after holds failed
  · obtain ⟨walks, enters⟩ := first before _ mid holds start
    obtain ⟨walks', same⟩ := reads source mid outcome after goesOn
    exact ⟨walks.trans walks', enters.andDrafts (.of_walks walks' same)⟩

/-- The entry is made. -/
theorem add {node : Node} (plain : node.isPlain) (children : ∀ child ∈ node.children, child ∈ taken)
    (alone : node.members = []) :
    EntersFrom source base (passed + 1) taken (Parser.add node base.cursor.current.span) := by
  intro before outcome after holds ran
  have moved := holds.moved
  have made (child : Nat) (member : child ∈ node.children) := holds.made child (children child member)
  obtain ⟨rfl, adds⟩ := add_ran holds.drafts.fits (by omega) made (alone ▸ .nil) ran
  exact ⟨adds.cursor ▸ .refl _, .add holds adds plain⟩

/-- An expression is the entry. -/
theorem attach {id : NodeId} : EntersFrom source base passed [id] (Parser.attach id) := by
  intro before outcome after holds ran
  cases ran
  exact ⟨.refl _, .attach holds⟩

end EntersFrom

theorem entersFrom_variableDeclaration (visibility : Visibility) : EntersFrom source base 0 []
    (variableDeclaration visibility base.cursor.current.span) := by
  refine .read onlyReads_variableKind fun kind => .identifier fun name => ?_
  refine .collect (drafts_afterSymbol _ drafts_typeExpression) fun type => ?_
  refine .collect (drafts_afterSymbol _ drafts_expression) fun init => ?_
  exact .andRead (.add rfl (by simp [Node.children, Node.parts, Node.members]) rfl) (onlyReads_ended _)

theorem entersFrom_expressionStatement : EntersFrom source base 0 [] expressionStatement :=
  .collect drafts_expression fun _ => .andRead .attach (onlyReads_ended _)

/-- The value of a return statement, which starts at the keyword. -/
theorem enters_returnStatement {outcome : Except ParseError Unit}
    (inside : base.cursor.kind ≠ .endOfFile)
    (ran : returnStatement source base = some (outcome, after)) :
    base.cursor.Walks after.cursor ∧ base.Enters source after := by
  have first : advance source base = some (.ok base.cursor.current,
    { base with cursor := base.cursor.advance }) := rfl
  rw [returnStatement, bind_of_ok first] at ran
  have further := Cursor.position_advance (Cursor.isAtEnd_eq_false rfl inside)
  have holds : base.Holds source 1 [] { base with cursor := base.cursor.advance } :=
    ⟨.of_walks (.advance _) rfl, further.ge, nofun⟩
  have rest (value : Option NodeId) : EntersFrom source base 1 ([] ++ value.toList) (do
      add (.result value) base.cursor.current.span
      let _ ← expectSymbol .semicolon) :=
    .andRead (.add rfl (by simp [Node.children, Node.parts, Node.members]) rfl) (onlyReads_ended _)
  have enters : EntersFrom source base 1 [] (do
      let value ← if ← isAt (.symbol .semicolon) then Pure.pure none else some <$> expression
      add (.result value) base.cursor.current.span
      let _ ← expectSymbol .semicolon) := by
    refine .read (onlyReads_isAt _) fun isEmpty => ?_
    cases isEmpty with
    | true => exact rest none
    | false =>
      have valued : Drafts (some <$> expression) Option.toList := fun source base =>
        (drafts_expression source base).map fun _ _ member => member
      exact .collect valued rest
  obtain ⟨walks, entered⟩ := enters _ outcome after holds ran
  exact ⟨.step walks, entered⟩

def elementHead (enumName : Name) (start : Span) : Parser Unit := do
  let name ← whileParsing "enum" enumName expectIdentifier
  let init ← whileParsing "enum" enumName (afterSymbol .equal expression)
  add (.enumElement name init) start

def elementEnd (enumName : Name) : Parser Unit := do
  unless ← eatSymbol .comma do
    flushComments
    unless (← isAt (.symbol .braceClose)) || (← isAtEnd) do
      whileParsing "enum" enumName (throw (.unexpected "`,` or `\x7d`" (← current)))

theorem enumElement_eq (name : Name) : enumElement name = (do
    let start ← currentSpan
    elementHead name start
    elementEnd name) := by
  simp only [enumElement, elementHead, bind_assoc]
  rfl

theorem entersFrom_elementHead (name : Name) :
    EntersFrom source base 0 [] (elementHead name base.cursor.current.span) := by
  refine .whileParsing_identifier fun element => ?_
  refine .bind (.whileParsing _ _ (.beside (drafts_afterSymbol _ drafts_expression) [])) fun init => ?_
  exact .add rfl (by simp [Node.children, Node.parts, Node.members]) rfl

/-- Where the comma is missing, comments are taken. -/
theorem elementEnd_ran {name : Name} {outcome : Except ParseError Unit}
    (ran : elementEnd name source before = some (outcome, after)) :
    ∃ last : State, before.cursor.Walks last.cursor ∧ last.builder = before.builder ∧
      (after = last ∨ after = last.flush source) := by
  by_cases comma : before.cursor.kind = .symbol .comma
  · rw [elementEnd, eatSymbol, bind_of_ok (eat_ok comma)] at ran
    cases ran
    exact ⟨{ before with cursor := before.cursor.advance }, .advance _, rfl, .inl rfl⟩
  · rw [elementEnd, eatSymbol, bind_of_ok (eat_absent comma), if_neg Bool.false_ne_true,
      bind_of_ok (flushComments_apply ..)] at ran
    refine ⟨before, .refl _, rfl, .inr ?_⟩
    have same : (if (before.flush source).cursor.isAt (.symbol .braceClose) ||
        (before.flush source).cursor.isAtEnd then pure () else do
          whileParsing "enum" name (throw (.unexpected "`,` or `\x7d`" (← current))) : Parser Unit)
        source (before.flush source) = some (outcome, after) := ran
    split at same <;> cases same <;> rfl

theorem enumElement_ran {name : Name} {outcome : Except ParseError Unit}
    (ran : enumElement name source before = some (outcome, after)) :
    ∃ last : State, before.cursor.Walks last.cursor ∧ before.Enters source last ∧
      (after = last ∨ after = last.flush source) := by
  have starts : currentSpan source before = some (.ok before.cursor.current.span, before) := rfl
  rw [enumElement_eq, bind_of_ok starts] at ran
  obtain ⟨_, failed, -⟩ | ⟨_, mid, head, rest⟩ := ran_of_bind ran
  · obtain ⟨walks, enters⟩ := entersFrom_elementHead name before _ after (.here before) failed
    exact ⟨after, walks, enters, .inl rfl⟩
  · obtain ⟨walks, enters⟩ := entersFrom_elementHead name before _ mid (.here before) head
    obtain ⟨last, walks', same, ended⟩ := elementEnd_ran rest
    exact ⟨last, walks.trans walks', enters.andDrafts (.of_walks walks' same), ended⟩

end Parser

end IncrementalFrontend
