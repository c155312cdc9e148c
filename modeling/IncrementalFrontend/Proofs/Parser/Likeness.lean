import Mathlib.Data.List.Forall2
import IncrementalFrontend.Proofs.Parser.Expressions

/-!
Two runs of a parser on tokens that are alike do alike things. What counts as alike is a parameter:
which names, spans and locations correspond. The one run may have consumed tokens and built nodes
before, so its ids are ahead of those of the other by a constant.
-/
namespace IncrementalFrontend

def Function.shift (ahead : Nat) (function : Function) : Function :=
  { function with
    linkageName := function.linkageName.map (· + ahead)
    formals := function.formals.map (· + ahead)
    returnType := function.returnType.map (· + ahead)
    condition := function.condition.map (· + ahead)
    body := function.body.map (·.map (· + ahead)) }

def Node.shift (ahead : Nat) : Node → Node
  | .moduleDecl name visibility isPrototype members =>
    .moduleDecl name visibility isPrototype (members.map (· + ahead))
  | .enumDecl name visibility members => .enumDecl name visibility (members.map (· + ahead))
  | .enumElement name init => .enumElement name (init.map (· + ahead))
  | .functionDecl function => .functionDecl (function.shift ahead)
  | .formal name intent type init => .formal name intent (type.map (· + ahead)) (init.map (· + ahead))
  | .variableDecl name visibility kind type init =>
    .variableDecl name visibility kind (type.map (· + ahead)) (init.map (· + ahead))
  | .call callee actuals => .call (callee + ahead) (actuals.map (· + ahead))
  | .field receiver name => .field (receiver + ahead) name
  | .operation operator operands => .operation operator (operands.map (· + ahead))
  | .result value => .result (value.map (· + ahead))
  | .block members => .block (members.map (· + ahead))
  | node => node

def TokenKind.isFixed : TokenKind → Bool
  | .string _ | .identifier _ => false
  | _ => true

/-- Which names, spans and locations correspond. A span from one place to another corresponds to the
span between the corresponding places. -/
structure Likeness where
  name : Name → Name → Prop
  span : Span → Span → Prop
  location : Location → Location → Prop
  dummy : span .dummy .dummy
  reach {start start' last last' : Span} : span start start' → span last last' →
    span ⟨start.start, max last.stop start.stop⟩ ⟨start'.start, max last'.stop start'.stop⟩

namespace Likeness

inductive Kinds (like : Likeness) : TokenKind → TokenKind → Prop where
  | keyword (word : Keyword) : Kinds like (.keyword word) (.keyword word)
  | symbol (mark : Symbol) : Kinds like (.symbol mark) (.symbol mark)
  | integer (value : UInt64) : Kinds like (.integer value) (.integer value)
  | string {content content' : Name} (same : like.name content content') :
      Kinds like (.string content) (.string content')
  | identifier {name name' : Name} (same : like.name name name') :
      Kinds like (.identifier name) (.identifier name')
  | invalid : Kinds like .invalid .invalid
  | endOfFile : Kinds like .endOfFile .endOfFile

structure Tokens (like : Likeness) (token token' : Token) : Prop where
  kind : like.Kinds token.kind token'.kind
  span : like.span token.span token'.span

structure Comments (like : Likeness) (comment comment' : Comment) : Prop where
  text : like.name comment.text comment'.text
  style : comment.style = comment'.style
  span : like.span comment.span comment'.span

structure Entries (like : Likeness) (entry entry' : TokenEntry) : Prop where
  token : like.Tokens entry.token entry'.token
  comments : List.Forall₂ like.Comments entry.comments entry'.comments

inductive Causes (like : Likeness) : ParseError.Kind → ParseError.Kind → Prop where
  | unexpectedToken (expected : String) {found found' : TokenKind} (same : like.Kinds found found') :
      Causes like (.unexpectedToken expected found) (.unexpectedToken expected found')
  | expectedExpression {found found' : TokenKind} (same : like.Kinds found found') :
      Causes like (.expectedExpression found) (.expectedExpression found')
  | expectedIdentifier {found found' : TokenKind} (same : like.Kinds found found') :
      Causes like (.expectedIdentifier found) (.expectedIdentifier found')
  | expectedType {found found' : TokenKind} (same : like.Kinds found found') :
      Causes like (.expectedType found) (.expectedType found')
  | invalidFunction (message : String) :
      Causes like (.invalidFunction message) (.invalidFunction message)

structure Errors (like : Likeness) (error error' : ParseError) : Prop where
  kind : like.Causes error.kind error'.kind
  span : like.span error.span error'.span
  note : error.note = error'.note

structure Diagnostics (like : Likeness) (diagnostic diagnostic' : Diagnostic) : Prop where
  code : diagnostic.code = diagnostic'.code
  severity : diagnostic.severity = diagnostic'.severity
  message : diagnostic.message = diagnostic'.message
  notes : diagnostic.notes = diagnostic'.notes
  location : like.location diagnostic.location diagnostic'.location

inductive Nodes (like : Likeness) : Node → Node → Prop where
  | comment {text text' : Name} (style : CommentStyle) (same : like.name text text') :
      Nodes like (.comment text style) (.comment text' style)
  | moduleDecl {name name' : Name} (visibility : Visibility) (isPrototype : Bool)
      (members : List NodeId) (same : like.name name name') :
      Nodes like (.moduleDecl name visibility isPrototype members)
        (.moduleDecl name' visibility isPrototype members)
  | enumDecl {name name' : Name} (visibility : Visibility) (members : List NodeId)
      (same : like.name name name') :
      Nodes like (.enumDecl name visibility members) (.enumDecl name' visibility members)
  | enumElement {name name' : Name} (init : Option NodeId) (same : like.name name name') :
      Nodes like (.enumElement name init) (.enumElement name' init)
  | functionDecl {name name' : Name} (function : Function) (same : like.name name name') :
      Nodes like (.functionDecl { function with name }) (.functionDecl { function with name := name' })
  | formal {name name' : Name} (intent : Intent) (type init : Option NodeId)
      (same : like.name name name') :
      Nodes like (.formal name intent type init) (.formal name' intent type init)
  | variableDecl {name name' : Name} (visibility : Visibility) (kind : VariableKind)
      (type init : Option NodeId) (same : like.name name name') :
      Nodes like (.variableDecl name visibility kind type init)
        (.variableDecl name' visibility kind type init)
  | identifier {name name' : Name} (same : like.name name name') :
      Nodes like (.identifier name) (.identifier name')
  | string {content content' : Name} (same : like.name content content') :
      Nodes like (.string content) (.string content')
  | field {name name' : Name} (receiver : NodeId) (same : like.name name name') :
      Nodes like (.field receiver name) (.field receiver name')
  | integer (value : UInt64) : Nodes like (.integer value) (.integer value)
  | call (callee : NodeId) (actuals : List NodeId) :
      Nodes like (.call callee actuals) (.call callee actuals)
  | operation (operator : Operator) (operands : List NodeId) :
      Nodes like (.operation operator operands) (.operation operator operands)
  | result (value : Option NodeId) : Nodes like (.result value) (.result value)
  | block (members : List NodeId) : Nodes like (.block members) (.block members)
  | erroneous : Nodes like .erroneous .erroneous

structure Placed (like : Likeness) (ahead : Nat) (placed placed' : PlacedNode) : Prop where
  node : like.Nodes placed.node (placed'.node.shift ahead)
  location : like.location placed.location placed'.location

variable {like : Likeness}

theorem Kinds.eq_iff {kind kind' fixed : TokenKind} (same : like.Kinds kind kind')
    (isFixed : fixed.isFixed) : kind = fixed ↔ kind' = fixed := by
  cases same <;> cases fixed <;> simp_all [TokenKind.isFixed]

theorem Kinds.description_eq {kind kind' : TokenKind} (same : like.Kinds kind kind') :
    kind.description = kind'.description := by
  cases same <;> rfl

theorem Causes.message_eq {cause cause' : ParseError.Kind} (same : like.Causes cause cause') :
    cause.message = cause'.message := by
  cases same with
  | unexpectedToken expected found =>
    exact congrArg ("expected " ++ expected ++ ", found " ++ ·) found.description_eq
  | expectedExpression found => exact congrArg ("expected expression, found " ++ ·) found.description_eq
  | expectedIdentifier found => exact congrArg ("expected identifier, found " ++ ·) found.description_eq
  | expectedType found => exact congrArg ("expected type, found " ++ ·) found.description_eq
  | invalidFunction message => rfl

theorem Causes.code_eq {cause cause' : ParseError.Kind} (same : like.Causes cause cause') :
    cause.code = cause'.code := by
  cases same <;> rfl

theorem Errors.diagnostic {error error' : ParseError} {location location' : Location}
    (same : like.Errors error error') (located : like.location location location') :
    like.Diagnostics (error.diagnostic location) (error'.diagnostic location') where
  code := same.kind.code_eq
  severity := rfl
  message := same.kind.message_eq
  notes := congrArg Option.toList same.note
  location := located

theorem Errors.inTypePosition {error error' : ParseError} (same : like.Errors error error') :
    like.Errors error.inTypePosition error'.inTypePosition := by
  obtain ⟨kind, span, note⟩ := error
  obtain ⟨kind', span', note'⟩ := error'
  obtain ⟨cause, spans, notes⟩ := same
  cases cause with
  | expectedExpression found => exact ⟨.expectedType found, spans, notes⟩
  | unexpectedToken expected found => exact ⟨.unexpectedToken expected found, spans, notes⟩
  | expectedIdentifier found => exact ⟨.expectedIdentifier found, spans, notes⟩
  | expectedType found => exact ⟨.expectedType found, spans, notes⟩
  | invalidFunction message => exact ⟨.invalidFunction message, spans, notes⟩

theorem Errors.found_iff {error error' : ParseError} (same : like.Errors error error') :
    error.found? = some .invalid ↔ error'.found? = some .invalid := by
  obtain ⟨kind, span, note⟩ := error
  obtain ⟨kind', span', note'⟩ := error'
  obtain ⟨cause, -, -⟩ := same
  cases cause with
  | unexpectedToken expected same => simpa [ParseError.found?] using same.eq_iff rfl
  | expectedExpression same => simpa [ParseError.found?] using same.eq_iff rfl
  | expectedIdentifier same => simpa [ParseError.found?] using same.eq_iff rfl
  | expectedType same => simpa [ParseError.found?] using same.eq_iff rfl
  | invalidFunction message => simp [ParseError.found?]

end Likeness

namespace Parser

/-- Two sources that are alike, and what the one run did before the other began. -/
structure Setting where
  like : Likeness
  source : Source
  source' : Source
  unit : SourceUnit
  unit' : SourceUnit
  entries : List TokenEntry
  ahead : Nat
  front : Builder
  texts {name name' : Name} : like.name name name' →
    source.names.lookup name = source'.names.lookup name'
  places {span span' : Span} : like.span span span' →
    like.location (source.lines.location unit.path span) (source'.lines.location unit'.path span')

namespace Setting

def shift (setting : Setting) : Nat :=
  setting.front.nodes.size

structure Cursors (setting : Setting) (cursor cursor' : Cursor) : Prop where
  rest : List.Forall₂ setting.like.Entries cursor.rest cursor'.rest
  waiting : List.Forall₂ setting.like.Comments cursor.waiting cursor'.waiting
  previous : setting.like.span cursor.previousSpan cursor'.previousSpan
  position : cursor.position = setting.ahead + cursor'.position
  entries : cursor.entries = setting.entries

structure Builders (setting : Setting) (builder builder' : Builder) : Prop where
  nodes : ∃ own, builder.nodes.toList = setting.front.nodes.toList ++ own ∧
    List.Forall₂ (setting.like.Placed setting.shift) own builder'.nodes.toList
  topLevel : builder.topLevel.toList =
    setting.front.topLevel.toList ++ builder'.topLevel.toList.map (· + setting.shift)
  scopes : List.Forall₂ (fun members members' => members.toList = members'.toList.map (· + setting.shift))
    builder.scopes builder'.scopes
  diagnostics : ∃ own, builder.diagnostics.toList = setting.front.diagnostics.toList ++ own ∧
    List.Forall₂ setting.like.Diagnostics own builder'.diagnostics.toList
  unit : builder.unit = setting.unit
  unit' : builder'.unit = setting.unit'

structure States (setting : Setting) (state state' : State) : Prop where
  cursor : setting.Cursors state.cursor state'.cursor
  builder : setting.Builders state.builder state'.builder

inductive Outcomes {α : Type} (setting : Setting) (rel : α → α → Prop) :
    Except ParseError α → Except ParseError α → Prop where
  | ok {result result' : α} (same : rel result result') : Outcomes setting rel (.ok result) (.ok result')
  | error {error error' : ParseError} (same : setting.like.Errors error error') :
      Outcomes setting rel (.error error) (.error error')

inductive Rounds {σ α : Type} (held : σ → σ → Prop) (rel : α → α → Prop) :
    Round σ α → Round σ α → Prop where
  | again {state state' : σ} (same : held state state') : Rounds held rel (.again state) (.again state')
  | done {result result' : α} (same : rel result result') :
      Rounds held rel (.done result) (.done result')

def Agree {α : Type} (setting : Setting) (rel : α → α → Prop) (parser parser' : Parser α) : Prop :=
  ∀ before before' outcome outcome' after after', setting.States before before' →
    parser setting.source before = some (outcome, after) →
    parser' setting.source' before' = some (outcome', after') →
    setting.Outcomes rel outcome outcome' ∧ setting.States after after'

variable {α β σ : Type} {setting : Setting} {rel : α → α → Prop} {rel' : β → β → Prop}

namespace Agree

theorem pure {result result' : α} (same : rel result result') :
    setting.Agree rel (pure result) (pure result') := by
  intro before before' outcome outcome' after after' states ran ran'
  cases ran
  cases ran'
  exact ⟨.ok same, states⟩

theorem throw {error error' : ParseError} (same : setting.like.Errors error error') :
    setting.Agree rel (throw error) (throw error') := by
  intro before before' outcome outcome' after after' states ran ran'
  cases ran
  cases ran'
  exact ⟨.error same, states⟩

theorem bind {parser parser' : Parser α} {next next' : α → Parser β}
    (first : setting.Agree rel parser parser')
    (second : ∀ result result', rel result result' → setting.Agree rel' (next result) (next' result')) :
    setting.Agree rel' (parser >>= next) (parser' >>= next') := by
  intro before before' outcome outcome' after after' states ran ran'
  cases start : parser setting.source before with
  | none => cases (bind_of_none start).symm.trans ran
  | some middle =>
    cases start' : parser' setting.source' before' with
    | none => cases (bind_of_none start').symm.trans ran'
    | some middle' =>
      obtain ⟨ended, mid⟩ := middle
      obtain ⟨ended', mid'⟩ := middle'
      obtain ⟨same, states⟩ := first _ _ _ _ _ _ states start start'
      cases same with
      | ok same =>
        rw [bind_of_ok start] at ran
        rw [bind_of_ok start'] at ran'
        exact second _ _ same _ _ _ _ _ _ states ran ran'
      | error same =>
        cases (bind_of_error start).symm.trans ran
        cases (bind_of_error start').symm.trans ran'
        exact ⟨.error same, states⟩

/-- Where results are equal, so is what comes next but for what is alike. -/
theorem same {parser parser' : Parser α} {next next' : α → Parser β}
    (first : setting.Agree Eq parser parser')
    (second : ∀ result, setting.Agree rel' (next result) (next' result)) :
    setting.Agree rel' (parser >>= next) (parser' >>= next') :=
  first.bind fun result _ equal => equal ▸ second result

theorem map {parser parser' : Parser α} {change change' : α → β}
    (agree : setting.Agree rel parser parser')
    (same : ∀ result result', rel result result' → rel' (change result) (change' result')) :
    setting.Agree rel' (change <$> parser) (change' <$> parser') := by
  rw [map_eq_pure_bind, map_eq_pure_bind]
  exact agree.bind fun result result' alike => .pure (same result result' alike)

/-- Rounds that hold what corresponds do alike things, however many there may be. -/
theorem rounds (held : σ → σ → Prop) {round round' : σ → Parser (Round σ α)}
    (each : ∀ state state', held state state' →
      setting.Agree (Rounds held rel) (round state) (round' state'))
    (count count' : Nat) {start start' : σ} (first : held start start') :
    setting.Agree rel (rounds round count start) (rounds round' count' start') := by
  induction count generalizing count' start start' with
  | zero =>
    intro before before' outcome outcome' after after' states ran ran'
    cases ran
  | succ count ih =>
    cases count' with
    | zero =>
      intro before before' outcome outcome' after after' states ran ran'
      cases ran'
    | succ count' =>
      refine (each start start' first).bind fun ended ended' same => ?_
      cases same with
      | again same => exact ih count' same
      | done same => exact .pure same

theorem loop (held : σ → σ → Prop) {start start' : σ} {round round' : σ → Parser (Round σ α)}
    (first : held start start') (each : ∀ state state', held state state' →
      setting.Agree (Rounds held rel) (round state) (round' state')) :
    setting.Agree rel (loop start round) (loop start' round') :=
  rounds held each setting.source.budget setting.source'.budget first

theorem unroll {body body' : Parser α → Parser α}
    (step : ∀ parser parser', setting.Agree rel parser parser' →
      setting.Agree rel (body parser) (body' parser')) (depth depth' : Nat) :
    setting.Agree rel (unroll body depth) (unroll body' depth') := by
  induction depth generalizing depth' with
  | zero =>
    intro before before' outcome outcome' after after' states ran ran'
    have absurd : none = some (outcome, after) := ran
    cases absurd
  | succ depth ih =>
    cases depth' with
    | zero =>
      intro before before' outcome outcome' after after' states ran ran'
      have absurd : none = some (outcome', after') := ran'
      cases absurd
    | succ depth' => exact step _ _ (ih depth')

theorem recursive {body body' : Parser α → Parser α}
    (step : ∀ parser parser', setting.Agree rel parser parser' →
      setting.Agree rel (body parser) (body' parser')) :
    setting.Agree rel (recursive body) (recursive body') :=
  unroll step setting.source.budget setting.source'.budget

theorem tryCatch {parser parser' : Parser α} {handle handle' : ParseError → Parser α}
    (first : setting.Agree rel parser parser')
    (second : ∀ error error', setting.like.Errors error error' →
      setting.Agree rel (handle error) (handle' error')) :
    setting.Agree rel (tryCatch parser handle) (tryCatch parser' handle') := by
  intro before before' outcome outcome' after after' states ran ran'
  rw [tryCatch_apply] at ran ran'
  cases start : parser setting.source before with
  | none => simp [start] at ran
  | some middle =>
    cases start' : parser' setting.source' before' with
    | none => simp [start'] at ran'
    | some middle' =>
      obtain ⟨ended, mid⟩ := middle
      obtain ⟨ended', mid'⟩ := middle'
      obtain ⟨same, states⟩ := first _ _ _ _ _ _ states start start'
      rw [start] at ran
      rw [start'] at ran'
      cases same with
      | ok same =>
        cases ran
        cases ran'
        exact ⟨.ok same, states⟩
      | error same => exact second _ _ same _ _ _ _ _ _ states ran ran'

end Agree

section

variable {cursor cursor' : Cursor} (cursors : setting.Cursors cursor cursor')
include cursors

theorem Cursors.current : setting.like.Tokens cursor.current cursor'.current := by
  obtain ⟨consumed, rest, waiting⟩ := cursor
  obtain ⟨consumed', rest', waiting'⟩ := cursor'
  cases cursors.rest with
  | nil => exact ⟨.endOfFile, setting.like.dummy⟩
  | cons first others => exact first.token

theorem Cursors.isAt {kind : TokenKind} (fixed : kind.isFixed) : cursor.isAt kind = cursor'.isAt kind := by
  rw [Bool.eq_iff_iff, Cursor.isAt_iff, Cursor.isAt_iff]
  exact cursors.current.kind.eq_iff fixed

theorem Cursors.advance : setting.Cursors cursor.advance cursor'.advance := by
  have ended : cursor.isAtEnd = cursor'.isAtEnd := cursors.isAt rfl
  have kept : cursor.advance.entries = setting.entries :=
    (Cursor.entries_advance cursor).trans cursors.entries
  by_cases atEnd : cursor.isAtEnd = true
  · rwa [Cursor.advance_of_isAtEnd atEnd, Cursor.advance_of_isAtEnd (ended ▸ atEnd)]
  · rw [Bool.not_eq_true] at atEnd
    have place := Cursor.position_advance atEnd
    have place' := Cursor.position_advance (ended ▸ atEnd)
    have position : cursor.advance.position = setting.ahead + cursor'.advance.position := by
      rw [place, place', cursors.position, Nat.add_assoc]
    clear place place'
    obtain ⟨consumed, rest, waiting⟩ := cursor
    obtain ⟨consumed', rest', waiting'⟩ := cursor'
    have pairs := cursors.rest
    cases pairs with
    | nil => cases atEnd
    | @cons entry entry' more more' first others =>
      have moved : Cursor.advance ⟨consumed, entry :: more, waiting⟩ =
          ⟨entry :: consumed, more, waiting ++ (more.head?.map (·.comments)).getD []⟩ := by
        simp [Cursor.advance, atEnd]
      have moved' : Cursor.advance ⟨consumed', entry' :: more', waiting'⟩ =
          ⟨entry' :: consumed', more', waiting' ++ (more'.head?.map (·.comments)).getD []⟩ := by
        simp [Cursor.advance, ← ended, atEnd]
      rw [moved, moved'] at position
      rw [moved] at kept
      rw [moved, moved']
      refine ⟨others, List.rel_append cursors.waiting ?_, first.token.span, position, kept⟩
      cases others with
      | nil => exact .nil
      | cons second others => exact second.comments

theorem Cursors.clearComments : setting.Cursors cursor.clearComments cursor'.clearComments :=
  ⟨cursors.rest, .nil, cursors.previous, cursors.position, cursors.entries⟩

end

theorem agree_current : setting.Agree setting.like.Tokens current current := by
  intro before before' outcome outcome' after after' states ran ran'
  cases ran
  cases ran'
  exact ⟨.ok states.cursor.current, states⟩

theorem agree_kind : setting.Agree setting.like.Kinds kind kind := by
  intro before before' outcome outcome' after after' states ran ran'
  cases ran
  cases ran'
  exact ⟨.ok states.cursor.current.kind, states⟩

theorem agree_currentSpan : setting.Agree setting.like.span currentSpan currentSpan := by
  intro before before' outcome outcome' after after' states ran ran'
  cases ran
  cases ran'
  exact ⟨.ok states.cursor.current.span, states⟩

theorem agree_isAt {kind : TokenKind} (fixed : kind.isFixed) :
    setting.Agree Eq (isAt kind) (isAt kind) := by
  intro before before' outcome outcome' after after' states ran ran'
  cases ran
  cases ran'
  exact ⟨.ok (states.cursor.isAt fixed), states⟩

theorem agree_isAtEnd : setting.Agree Eq isAtEnd isAtEnd :=
  agree_isAt rfl

theorem agree_position :
    setting.Agree (fun place place' => place = setting.ahead + place') position position := by
  intro before before' outcome outcome' after after' states ran ran'
  cases ran
  cases ran'
  exact ⟨.ok states.cursor.position, states⟩

theorem agree_advance : setting.Agree setting.like.Tokens advance advance := by
  intro before before' outcome outcome' after after' states ran ran'
  cases ran
  cases ran'
  exact ⟨.ok states.cursor.current, states.cursor.advance, states.builder⟩

theorem agree_eat {kind : TokenKind} (fixed : kind.isFixed) :
    setting.Agree Eq (eat kind) (eat kind) := by
  intro before before' outcome outcome' after after' states ran ran'
  cases (eat_apply kind).symm.trans ran
  cases (eat_apply kind).symm.trans ran'
  have here := states.cursor.isAt fixed
  unfold Cursor.eat
  rw [← here]
  split
  · exact ⟨.ok rfl, states.cursor.advance, states.builder⟩
  · exact ⟨.ok rfl, states⟩

theorem Errors.unexpected {token token' : Token} (expected : String)
    (tokens : setting.like.Tokens token token') :
    setting.like.Errors (.unexpected expected token) (.unexpected expected token') :=
  ⟨.unexpectedToken expected tokens.kind, tokens.span, rfl⟩

theorem agree_expect {kind : TokenKind} (fixed : kind.isFixed) :
    setting.Agree setting.like.Tokens (expect kind) (expect kind) := by
  intro before before' outcome outcome' after after' states ran ran'
  have here := states.cursor.isAt fixed
  have tokens := states.cursor.current
  by_cases found : before.cursor.kind = kind
  · have found' : before'.cursor.kind = kind :=
      Cursor.isAt_iff.mp (here ▸ Cursor.isAt_iff.mpr found)
    cases (expect_ok found).symm.trans ran
    cases (expect_ok found').symm.trans ran'
    exact ⟨.ok tokens, states.cursor.advance, states.builder⟩
  · have missing : before.cursor.isAt kind = false :=
      Bool.eq_false_iff.mpr fun found' => found (Cursor.isAt_iff.mp found')
    rw [expect_apply, Cursor.expect, missing] at ran
    rw [expect_apply, Cursor.expect, ← here, missing] at ran'
    cases ran
    cases ran'
    exact ⟨.error (Errors.unexpected _ tokens), states⟩

theorem agree_expectIdentifier : setting.Agree setting.like.name expectIdentifier expectIdentifier := by
  intro before before' outcome outcome' after after' states ran ran'
  have tokens := states.cursor.current
  have fails : setting.like.Errors (.noIdentifier before.cursor.current)
      (.noIdentifier before'.cursor.current) :=
    ⟨.expectedIdentifier tokens.kind, tokens.span, rfl⟩
  have kinds : setting.like.Kinds before.cursor.kind before'.cursor.kind := tokens.kind
  rw [expectIdentifier_apply] at ran ran'
  generalize before.cursor.kind = kind at kinds ran
  generalize before'.cursor.kind = kind' at kinds ran'
  cases kinds with
  | identifier same =>
    cases ran
    cases ran'
    exact ⟨.ok same, states.cursor.advance, states.builder⟩
  | _ =>
    cases ran
    cases ran'
    exact ⟨.error fails, states⟩

theorem agree_setCursor {cursor cursor' : Cursor} (cursors : setting.Cursors cursor cursor') :
    setting.Agree Eq (setCursor cursor) (setCursor cursor') := by
  intro before before' outcome outcome' after after' states ran ran'
  cases ran
  cases ran'
  exact ⟨.ok rfl, cursors, states.builder⟩

theorem agree_cursor : setting.Agree setting.Cursors cursor cursor := by
  intro before before' outcome outcome' after after' states ran ran'
  cases ran
  cases ran'
  exact ⟨.ok states.cursor, states⟩

theorem agree_spanFrom {start start' : Span} (same : setting.like.span start start') :
    setting.Agree setting.like.span (spanFrom start) (spanFrom start') := by
  intro before before' outcome outcome' after after' states ran ran'
  cases ran
  cases ran'
  exact ⟨.ok (setting.like.reach same states.cursor.previous), states⟩

theorem agree_locate {span span' : Span} (same : setting.like.span span span') :
    setting.Agree setting.like.location (locate span) (locate span') := by
  intro before before' outcome outcome' after after' states ran ran'
  cases ran
  cases ran'
  refine ⟨.ok ?_, states⟩
  rw [Builder.path, Builder.path, states.builder.unit, states.builder.unit']
  exact setting.places same

theorem agree_lookup {name name' : Name} (same : setting.like.name name name') :
    setting.Agree Eq (lookup name) (lookup name') := by
  intro before before' outcome outcome' after after' states ran ran'
  cases ran
  cases ran'
  exact ⟨.ok (setting.texts same), states⟩

def Ids (setting : Setting) (id id' : NodeId) : Prop :=
  id = id' + setting.shift

def Lists (setting : Setting) (ids ids' : List NodeId) : Prop :=
  ids = ids'.map (· + setting.shift)

def Options (setting : Setting) (id? id?' : Option NodeId) : Prop :=
  id? = id?'.map (· + setting.shift)

theorem agree_build {change change' : Builder → α × Builder}
    (keeps : ∀ builder builder', setting.Builders builder builder' →
      rel (change builder).1 (change' builder').1 ∧
        setting.Builders (change builder).2 (change' builder').2) :
    setting.Agree rel (build change) (build change') := by
  intro before before' outcome outcome' after after' states ran ran'
  cases (build_apply change).symm.trans ran
  cases (build_apply change').symm.trans ran'
  obtain ⟨same, builders⟩ := keeps _ _ states.builder
  exact ⟨.ok same, states.cursor, builders⟩

section

variable {builder builder' : Builder} (builders : setting.Builders builder builder')
include builders

theorem Builders.depth : builder.depth = builder'.depth :=
  builders.scopes.length_eq

theorem Builders.openScope : setting.Builders builder.openScope builder'.openScope :=
  ⟨builders.nodes, builders.topLevel, .cons rfl builders.scopes, builders.diagnostics,
    builders.unit, builders.unit'⟩

theorem Builders.closeScope : setting.Lists builder.closeScope.1 builder'.closeScope.1 ∧
    setting.Builders builder.closeScope.2 builder'.closeScope.2 := by
  obtain ⟨unit, nodes, topLevel, scopes, diagnostics⟩ := builder
  obtain ⟨unit', nodes', topLevel', scopes', diagnostics'⟩ := builder'
  have pairs := builders.scopes
  cases pairs with
  | nil => exact ⟨rfl, builders⟩
  | cons first others =>
    exact ⟨first, builders.nodes, builders.topLevel, others, builders.diagnostics, builders.unit,
      builders.unit'⟩

theorem Builders.attach {id id' : NodeId} (same : setting.Ids id id') :
    setting.Builders (builder.attach id) (builder'.attach id') := by
  obtain ⟨unit, nodes, topLevel, scopes, diagnostics⟩ := builder
  obtain ⟨unit', nodes', topLevel', scopes', diagnostics'⟩ := builder'
  have pairs := builders.scopes
  cases pairs with
  | nil =>
    refine ⟨builders.nodes, ?_, .nil, builders.diagnostics, builders.unit, builders.unit'⟩
    have tops := builders.topLevel
    simp_all [Builder.attach, Ids]
  | cons first others =>
    refine ⟨builders.nodes, builders.topLevel, .cons ?_ others, builders.diagnostics, builders.unit,
      builders.unit'⟩
    simp_all [Ids]

theorem Builders.store {node node' : Node} {location location' : Location}
    (same : setting.like.Nodes node (node'.shift setting.shift))
    (located : setting.like.location location location') :
    setting.Ids (builder.store node location).1 (builder'.store node' location').1 ∧
      setting.Builders (builder.store node location).2 (builder'.store node' location').2 := by
  obtain ⟨own, nodes, placed⟩ := builders.nodes
  have size : builder.nodes.size = builder'.nodes.size + setting.shift := by
    have length := congrArg List.length nodes
    have length' := placed.length_eq
    simp only [Array.length_toList, List.length_append] at length length'
    rw [length, length', shift, Nat.add_comm]
  refine ⟨size, ⟨own ++ [⟨node, location⟩], ?_, ?_⟩, builders.topLevel, builders.scopes,
    builders.diagnostics, builders.unit, builders.unit'⟩
  · simp [Builder.store, nodes]
  · rw [Builder.store, Array.toList_push]
    exact List.rel_append placed (.cons ⟨same, located⟩ .nil)

theorem Builders.add {node node' : Node} {location location' : Location}
    (same : setting.like.Nodes node (node'.shift setting.shift))
    (located : setting.like.location location location') :
    setting.Builders (builder.add node location).2 (builder'.add node' location').2 := by
  obtain ⟨ids, stored⟩ := builders.store same located
  exact stored.attach ids

theorem Builders.report {diagnostic diagnostic' : Diagnostic}
    (same : setting.like.Diagnostics diagnostic diagnostic') :
    setting.Builders (builder.report diagnostic) (builder'.report diagnostic') := by
  obtain ⟨own, reported, told⟩ := builders.diagnostics
  refine ⟨builders.nodes, builders.topLevel, builders.scopes, ⟨own ++ [diagnostic], ?_, ?_⟩,
    builders.unit, builders.unit'⟩
  · simp [Builder.report, reported]
  · rw [Builder.report, Array.toList_push]
    exact List.rel_append told (.cons same .nil)

end

theorem Builders.attachAll {builder builder' : Builder} (builders : setting.Builders builder builder')
    {ids ids' : List NodeId} (same : setting.Lists ids ids') :
    setting.Builders (ids.foldl Builder.attach builder) (ids'.foldl Builder.attach builder') := by
  subst same
  induction ids' generalizing builder builder' with
  | nil => exact builders
  | cons id rest ih => exact ih (builders.attach rfl)

theorem Builders.unwindTo {builder builder' : Builder} (builders : setting.Builders builder builder')
    (depth : Nat) : (builder.unwindTo depth).1 = (builder'.unwindTo depth).1 ∧
      setting.Builders (builder.unwindTo depth).2 (builder'.unwindTo depth).2 := by
  have unwound (surplus : Nat) : setting.Builders (Nat.repeat Builder.dissolveScope surplus builder)
      (Nat.repeat Builder.dissolveScope surplus builder') := by
    induction surplus with
    | zero => exact builders
    | succ surplus ih =>
      obtain ⟨members, closed⟩ := ih.closeScope
      exact closed.attachAll members
  rw [Builder.unwindTo, Builder.unwindTo, builders.depth]
  exact ⟨rfl, unwound _⟩

/-- Scopes still open add the same entries to both trees. -/
theorem Builders.topLevel_tree {builder builder' : Builder} (builders : setting.Builders builder builder') :
    builder.tree.topLevel =
      setting.front.topLevel.toList ++ builder'.tree.topLevel.map (· + setting.shift) := by
  unfold Builder.tree
  dsimp only
  rw [builders.topLevel]
  have scopes := builders.scopes
  generalize builder.scopes = opened at scopes
  generalize builder'.scopes = opened' at scopes
  induction scopes with
  | nil => rfl
  | cons first others ih =>
    rw [List.foldr_cons, ih, first, List.foldr_cons, List.map_append, List.append_assoc]

end Setting

end Parser

end IncrementalFrontend
