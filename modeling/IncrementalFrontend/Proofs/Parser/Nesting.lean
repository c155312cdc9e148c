import IncrementalFrontend.Parser.Statement
import IncrementalFrontend.Proofs.Parser.Headers

/-!
Scopes are open as long as their braces are, and a construct leaves the scopes around it alone,
whatever errors are in it.
-/
namespace IncrementalFrontend

open Grammar Computability

namespace Builder

def stack (builder : Builder) : List (Array NodeId) :=
  builder.scopes ++ [builder.topLevel]

@[simp] theorem length_stack (builder : Builder) : builder.stack.length = builder.depth + 1 :=
  List.length_append

@[simp] theorem stack_openScope (builder : Builder) : builder.openScope.stack = #[] :: builder.stack :=
  rfl

@[simp] theorem tail_stack_attach (builder : Builder) (id : NodeId) :
    (builder.attach id).stack.tail = builder.stack.tail := by
  unfold attach
  split <;> simp [stack, *]

theorem stack_closeScope {builder : Builder} (opened : builder.depth ≠ 0) :
    builder.closeScope.2.stack = builder.stack.tail := by
  unfold depth at opened
  unfold closeScope
  split <;> simp_all [stack]

theorem unit_attach (builder : Builder) (id : NodeId) : (builder.attach id).unit = builder.unit := by
  unfold attach
  split <;> rfl

theorem unit_closeScope (builder : Builder) : builder.closeScope.2.unit = builder.unit := by
  unfold closeScope
  split <;> rfl

theorem diagnostics_closeScope (builder : Builder) :
    builder.closeScope.2.diagnostics = builder.diagnostics := by
  unfold closeScope
  split <;> rfl

theorem diagnostics_attach (builder : Builder) (id : NodeId) :
    (builder.attach id).diagnostics = builder.diagnostics := by
  unfold attach
  split <;> rfl

end Builder

namespace Parser

variable {α : Type} {room : Nat} {source : Source} {before mid after : State}
  {word more : List TokenKind} {opened : Nat}

/-- Between two states `opened` scopes were opened and not closed, each with its brace, unless the
file ended first. What is around the innermost scope stays as it is, and no brace is reported as
missing unless one is missing at the end of the file. -/
structure State.Nests (before : State) (word : List TokenKind) (opened : Nat) (after : State) :
    Prop where
  braces : ∃ depth, openBraces 0 word = some depth ∧
    (depth = opened ∨ after.cursor.kind = .endOfFile)
  depth : after.builder.depth = before.builder.depth + opened
  outer : after.builder.stack.drop (opened + 1) = before.builder.stack.tail
  unit : after.builder.unit = before.builder.unit
  reports : ∃ new, after.builder.diagnostics.toList = before.builder.diagnostics.toList ++ new ∧
    (IsBalanced word ∨ after.cursor.kind ≠ .endOfFile →
      ∀ diagnostic ∈ new, diagnostic.code ≠ .unclosedDelimiter)

namespace State.Nests

theorem of_keeps (plain : ∀ kind ∈ word, kind.isPlain) (keeps : before.Keeps after) :
    before.Nests word 0 after where
  braces := ⟨0, openBraces_of_plain plain 0, .inl rfl⟩
  depth := congrArg List.length keeps.scopes
  outer := by rw [Builder.stack, keeps.scopes, keeps.topLevel, List.drop_one, Builder.stack]
  unit := keeps.unit
  reports := ⟨[], by rw [keeps.diagnostics, List.append_nil], fun _ => List.forall_mem_nil _⟩

theorem trans (reads : mid.Reads more after) (first : before.Nests word 0 mid)
    (second : mid.Nests more opened after) : before.Nests (word ++ more) opened after := by
  obtain ⟨depth, walk, closed | ended⟩ := first.braces
  · -- all braces of the first word are closed, so the second word is walked from the same depth
    subst closed
    have walks : openBraces 0 (word ++ more) = openBraces 0 more := by
      rw [openBraces_append, walk, Option.bind_some]
    obtain ⟨new, same, fine⟩ := first.reports
    obtain ⟨new', same', fine'⟩ := second.reports
    refine ⟨walks ▸ second.braces, ?_, ?_, second.unit.trans first.unit, new ++ new', ?_,
      fun complete => ?_⟩
    · rw [second.depth, first.depth, Nat.add_zero]
    · rw [second.outer, ← List.drop_one, first.outer]
    · rw [same', same, List.append_assoc]
    · exact List.forall_mem_append.mpr
        ⟨fine (.inl walk), fine' (complete.imp_left fun balanced => walks.symm.trans balanced)⟩
  · -- the file has ended, so the second word is empty
    obtain rfl := reads.nil_of_isAtEnd (Cursor.isAtEnd_iff.mpr ended)
    have kinds : mid.cursor.kinds = after.cursor.kinds := reads.kinds
    rw [Cursor.kind_eq_first, kinds, ← Cursor.kind_eq_first] at ended
    obtain ⟨new, same, fine⟩ := first.reports
    obtain ⟨new', same', fine'⟩ := second.reports
    rw [List.append_nil]
    refine ⟨⟨depth, walk, .inr ended⟩, ?_, ?_, second.unit.trans first.unit, new ++ new', ?_,
      fun complete => ?_⟩
    · rw [second.depth, first.depth, Nat.add_zero]
    · rw [second.outer, ← List.drop_one, first.outer]
    · rw [same', same, List.append_assoc]
    · have balanced := complete.resolve_right fun inside => inside ended
      exact List.forall_mem_append.mpr ⟨fine (.inl balanced), fine' (.inl rfl)⟩

/-- A scope that was opened with its brace counts as open. -/
theorem behindBrace
    (nests : State.Nests ⟨before.cursor.advance, before.builder.openScope⟩ word opened after) :
    before.Nests (.symbol .braceOpen :: word) (opened + 1) after := by
  obtain ⟨depth, walk, closed⟩ := nests.braces
  obtain ⟨new, same, fine⟩ := nests.reports
  have walk : openBraces 0 (.symbol .braceOpen :: word) = some (depth + 1) := by
    rw [openBraces_open, openBraces_add 1 walk]
  refine ⟨⟨depth + 1, walk, closed.imp_left (congrArg (· + 1))⟩, ?_, ?_, nests.unit, new, same, ?_⟩
  · rw [nests.depth, Builder.depth_openScope, Nat.add_right_comm, Nat.add_assoc]
  · rw [← List.tail_drop, nests.outer]
    rfl
  · rintro (balanced | inside)
    · cases walk.symm.trans balanced
    · exact fine (.inr inside)

end State.Nests

def nesting : Effect where
  done before word after := before.Nests word 0 after
  failed before word after := ∃ opened, before.Nests word opened after
  quiet _ plain keeps := ⟨.of_keeps plain keeps, 0, .of_keeps plain keeps⟩
  trans _ reads first second := first.trans reads second
  failed_trans _ reads first := fun ⟨opened, second⟩ => ⟨opened, first.trans reads second⟩
  reports done := by
    obtain ⟨new, same, -⟩ := done.reports
    exact ⟨new, same.symm⟩

theorem idle_of_attach {parser : Parser α} (attaches : ∀ source before, ∃ result after,
    parser source before = some (.ok result, after) ∧ after.cursor.kinds = before.cursor.kinds ∧
      after.cursor.position = before.cursor.position ∧
      after.builder.depth = before.builder.depth ∧
      after.builder.stack.tail = before.builder.stack.tail ∧
      after.builder.unit = before.builder.unit ∧ before.IsSilent after) :
    Idle nesting parser := by
  intro source before
  obtain ⟨result, after, ran, kinds, position, depth, outer, unit, silent⟩ := attaches source before
  have reports : after.builder.diagnostics.toList = before.builder.diagnostics.toList ++ [] := by
    rw [silent, List.append_nil]
  exact ⟨result, after, ran, .nil kinds position, ⟨⟨0, rfl, .inl rfl⟩, depth, by rw [List.drop_one, outer],
    unit, [], reports, fun _ => List.forall_mem_nil _⟩, silent⟩

theorem idle_attach (id : NodeId) : Idle nesting (attach id) :=
  idle_of_attach fun _ _ => ⟨_, _, rfl, rfl, rfl, Builder.depth_attach .., Builder.tail_stack_attach ..,
    Builder.unit_attach .., Builder.diagnostics_attach ..⟩

theorem idle_build_add (node : Node) (location : Location) :
    Idle nesting (build (·.add node location)) :=
  idle_of_attach fun _ _ => ⟨_, _, rfl, rfl, rfl, Builder.depth_attach .., Builder.tail_stack_attach ..,
    Builder.unit_attach .., Builder.diagnostics_attach ..⟩

theorem idle_add (node : Node) (start : Span) : Idle nesting (add node start) :=
  (idle_spanFrom start).bind fun span => (idle_locate span).bind fun location =>
    (idle_build_add node location).bind fun _ => idle_pure ()

theorem idle_discardComments {effect : Effect} : Idle effect discardComments := by
  intro source before
  let after : State := { before with cursor := before.cursor.clearComments }
  have reads : before.Reads [] after := .nil rfl rfl
  exact ⟨(), after, rfl, reads, (effect.quiet reads (List.forall_mem_nil _) ⟨rfl, rfl, rfl, rfl⟩).1, rfl⟩

theorem idle_forIn {step : Comment → PUnit → Parser (ForInStep PUnit)}
    (idle : ∀ comment, Idle nesting (step comment .unit)) (comments : List Comment) :
    Idle nesting (forIn comments PUnit.unit step) := by
  induction comments with
  | nil => exact idle_pure PUnit.unit
  | cons comment rest ih =>
    rw [List.forIn_cons]
    refine (idle comment).bind fun
      | .done _ => idle_pure PUnit.unit
      | .yield _ => ih

def State.flush (source : Source) (state : State) : State where
  cursor := state.cursor.clearComments
  builder := state.cursor.waiting.foldl (fun builder comment => (builder.add
    (.comment comment.text comment.style) (source.lines.location builder.path comment.span)).2)
    state.builder

theorem flushComments_apply (source : Source) (before : State) :
    flushComments source before = some (.ok (), before.flush source) := by
  have attaches (comments : List Comment) (state : State) : (do
      for comment in comments do
        let location ← locate comment.span
        let _ ← build (·.add (.comment comment.text comment.style) location) : Parser Unit) source
        state = some (.ok (), { state with builder := comments.foldl (fun builder comment => (builder.add
          (.comment comment.text comment.style)
          (source.lines.location builder.path comment.span)).2) state.builder }) := by
    induction comments generalizing state with
    | nil => rfl
    | cons comment rest ih =>
      simp only [List.forIn_cons, bind_assoc, pure_bind] at ih ⊢
      exact ih _
  exact attaches before.cursor.waiting ⟨before.cursor.clearComments, before.builder⟩

/-- Comments become members of the innermost scope. -/
theorem idle_flushComments : Idle nesting flushComments := by
  have attaches (comments : List Comment) : Idle nesting (do
      for comment in comments do
        let location ← locate comment.span
        let _ ← build (·.add (.comment comment.text comment.style) location)) :=
    (idle_forIn (fun comment => (idle_locate comment.span).bind fun location =>
      (idle_build_add _ location).bind fun _ => idle_pure _) comments).bind fun _ => idle_pure ()
  intro source before
  have discards : Idle nesting discardComments := idle_discardComments
  obtain ⟨result, mid, ran, reads, done, silent⟩ := discards source before
  cases ran
  obtain ⟨result, after, ran, reads', done', silent'⟩ :=
    attaches before.cursor.waiting source { before with cursor := before.cursor.clearComments }
  exact ⟨result, after, ran, reads.trans reads', nesting.trans reads reads' done done',
    silent'.trans silent⟩

end Parser

end IncrementalFrontend
