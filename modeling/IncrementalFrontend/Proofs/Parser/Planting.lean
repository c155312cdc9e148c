import IncrementalFrontend.Parser.Text
import IncrementalFrontend.Proofs.Parser.Statements
import IncrementalFrontend.Proofs.Syntax.Grove
import IncrementalFrontend.Proofs.Token.Walks

/-!
Parsers keep what they build a forest in the making. A parser takes nodes in hand and gives others;
the rules are those of the control structures, so a production is followed line by line.
-/
namespace IncrementalFrontend

namespace Parser

variable {α β σ : Type}

def OnlyReads (parser : Parser α) : Prop :=
  ∀ source before outcome after, parser source before = some (outcome, after) →
    before.cursor.Walks after.cursor ∧ after.builder = before.builder

namespace OnlyReads

theorem pure (result : α) : OnlyReads (pure result) := by
  intro source before outcome after ran
  cases ran
  exact ⟨.refl _, rfl⟩

theorem throw (error : ParseError) : OnlyReads (throw error : Parser α) := by
  intro source before outcome after ran
  cases ran
  exact ⟨.refl _, rfl⟩

theorem bind {parser : Parser α} {next : α → Parser β} (first : OnlyReads parser)
    (second : ∀ result, OnlyReads (next result)) : OnlyReads (parser >>= next) := by
  intro source before outcome after ran
  obtain ⟨_, failed, -⟩ | ⟨result, mid, start, rest⟩ := ran_of_bind ran
  · exact first source before _ _ failed
  · obtain ⟨walks, same⟩ := first source before _ _ start
    obtain ⟨walks', same'⟩ := second result source mid outcome after rest
    exact ⟨walks.trans walks', same'.trans same⟩

theorem rounds {round : σ → Parser (Round σ α)} (each : ∀ state, OnlyReads (round state))
    (count : Nat) (state : σ) : OnlyReads (rounds round count state) := by
  induction count generalizing state with
  | zero =>
    intro source before outcome after ran
    cases ran
  | succ count ih =>
    refine (each state).bind fun
      | .again state => ih state
      | .done result => .pure result

theorem loop {start : σ} {round : σ → Parser (Round σ α)} (each : ∀ state, OnlyReads (round state)) :
    OnlyReads (loop start round) :=
  fun source => rounds each source.budget start source

/-- A parser that is a function of the cursor. -/
theorem of_cursor {parser : Parser α} (looks : ∀ source before, ∃ result cursor,
    parser source before = some (result, { before with cursor }) ∧ before.cursor.Walks cursor) :
    OnlyReads parser := by
  intro source before outcome after ran
  obtain ⟨result, cursor, same, walks⟩ := looks source before
  cases same.symm.trans ran
  exact ⟨walks, rfl⟩

/-- A parser that looks and stays. -/
theorem of_look {parser : Parser α}
    (looks : ∀ source before, ∃ result, parser source before = some (result, before)) :
    OnlyReads parser := by
  refine of_cursor fun source before => ?_
  obtain ⟨result, same⟩ := looks source before
  exact ⟨result, before.cursor, same, .refl _⟩

end OnlyReads

theorem onlyReads_advance : OnlyReads advance :=
  .of_cursor fun _ before => ⟨_, _, rfl, .advance before.cursor⟩

theorem onlyReads_current : OnlyReads current :=
  .of_look fun _ _ => ⟨_, rfl⟩

theorem onlyReads_currentSpan : OnlyReads currentSpan :=
  .of_look fun _ _ => ⟨_, rfl⟩

theorem onlyReads_kind : OnlyReads kind :=
  .of_look fun _ _ => ⟨_, rfl⟩

theorem onlyReads_isAt (kind : TokenKind) : OnlyReads (isAt kind) :=
  .of_look fun _ _ => ⟨_, rfl⟩

theorem onlyReads_isAtEnd : OnlyReads isAtEnd :=
  .of_look fun _ _ => ⟨_, rfl⟩

theorem onlyReads_position : OnlyReads position :=
  .of_look fun _ _ => ⟨_, rfl⟩

theorem onlyReads_eat (kind : TokenKind) : OnlyReads (eat kind) := by
  refine .of_cursor fun source before => ⟨_, _, eat_apply kind, ?_⟩
  unfold Cursor.eat
  split
  · exact .advance before.cursor
  · exact .refl _

theorem onlyReads_expect (kind : TokenKind) : OnlyReads (expect kind) := by
  refine .of_cursor fun source before => ?_
  by_cases here : before.cursor.kind = kind
  · exact ⟨_, _, expect_ok here, .advance before.cursor⟩
  · obtain ⟨error, ran, -⟩ := @expect_error source before kind here
    exact ⟨_, before.cursor, ran, .refl _⟩

theorem onlyReads_expectIdentifier : OnlyReads expectIdentifier := by
  refine .of_cursor fun source before => ?_
  rw [expectIdentifier_apply]
  split
  · exact ⟨_, _, rfl, .advance before.cursor⟩
  · exact ⟨_, before.cursor, rfl, .refl _⟩

theorem onlyReads_spanFrom (start : Span) : OnlyReads (spanFrom start) :=
  .of_look fun _ _ => ⟨_, rfl⟩

theorem onlyReads_locate (span : Span) : OnlyReads (locate span) :=
  .of_look fun _ _ => ⟨_, rfl⟩

theorem onlyReads_lookup (name : Name) : OnlyReads (lookup name) :=
  .of_look fun _ _ => ⟨_, rfl⟩

theorem onlyReads_signs : OnlyReads signs := by
  refine .loop fun signs => onlyReads_kind.bind fun kind => ?_
  split
  · exact onlyReads_advance.bind fun _ => .pure _
  · exact .pure _

theorem onlyReads_linkage : OnlyReads linkage := by
  refine (onlyReads_eat _).bind fun isExternal => ?_
  split
  · exact .pure _
  · refine (onlyReads_eat _).bind fun isExported => ?_
    split <;> exact .pure _

theorem onlyReads_functionKind : OnlyReads functionKind := by
  refine (onlyReads_eat _).bind fun isProcedure => ?_
  split
  · exact .pure _
  · refine (onlyReads_eat _).bind fun isIterator => ?_
    split
    · exact .pure _
    · exact onlyReads_current.bind fun _ => .throw _

theorem onlyReads_intent : OnlyReads intent := by
  refine onlyReads_kind.bind fun kind => ?_
  split
  · exact onlyReads_advance.bind fun _ => (onlyReads_eat _).bind fun _ => .pure _
  all_goals first
    | exact .pure _
    | exact onlyReads_advance.bind fun _ => .pure _

theorem onlyReads_returnIntent : OnlyReads returnIntent := by
  refine onlyReads_kind.bind fun kind => ?_
  split
  · exact onlyReads_advance.bind fun _ => (onlyReads_eat _).bind fun _ => .pure _
  all_goals first
    | exact .pure _
    | exact onlyReads_advance.bind fun _ => .pure _

theorem onlyReads_variableKind : OnlyReads variableKind := by
  refine onlyReads_advance.bind fun token => ?_
  split <;> exact .pure _

theorem onlyReads_visibility : OnlyReads visibility := by
  refine (onlyReads_eat _).bind fun isPublic => ?_
  split
  · exact .pure _
  · refine (onlyReads_eat _).bind fun isPrivate => ?_
    split <;> exact .pure _

theorem onlyReads_skipRound (start openBraces : Nat) : OnlyReads (skipRound start openBraces) := by
  refine onlyReads_kind.bind fun kind => ?_
  split
  · exact .pure _
  · exact onlyReads_advance.bind fun _ => .pure _
  · exact .pure _
  · exact onlyReads_advance.bind fun _ => .pure _
  · exact onlyReads_advance.bind fun _ => .pure _
  · exact onlyReads_advance.bind fun _ => .pure _
  · refine onlyReads_position.bind fun place => ?_
    split
    · exact .pure _
    · exact onlyReads_advance.bind fun _ => .pure _
  · exact onlyReads_advance.bind fun _ => .pure _

theorem onlyReads_skip (start openBraces : Nat) : OnlyReads (skip start openBraces) :=
  .loop (onlyReads_skipRound start)

/-- The parser takes some loose nodes in hand and gives others. If it fails, those it took are lost.
It leaves alone what else is in hand. -/
def Plants (taken : List NodeId) (parser : Parser α) (given : α → List NodeId) : Prop :=
  ∀ loose kept source before outcome after, before.builder.Grove (taken ++ loose) kept →
    parser source before = some (outcome, after) →
    match outcome with
    | .ok result => after.builder.Grove (given result ++ loose) kept
    | .error _ => after.builder.Grove loose kept

def Settles (taken members : List NodeId) (parser : Parser Unit) : Prop :=
  ∀ loose kept source before outcome after, before.builder.Grove (taken ++ loose) (members ++ kept) →
    parser source before = some (outcome, after) → after.builder.Grove loose kept

namespace Plants

variable {taken : List NodeId} {parser : Parser α} {next : α → Parser β} {given : α → List NodeId}
  {result : β → List NodeId}

theorem pure {value : α} (same : taken = given value) : Plants taken (pure value) given := by
  intro loose kept source before outcome after grove ran
  subst same
  cases ran
  exact grove

theorem bind (first : Plants taken parser given) (second : ∀ value, Plants (given value) (next value) result) :
    Plants taken (parser >>= next) result := by
  intro loose kept source before outcome after grove ran
  obtain ⟨_, failed, rfl⟩ | ⟨value, mid, start, rest⟩ := ran_of_bind ran
  · exact first loose kept source before _ _ grove failed
  · have grove := first loose kept source before _ _ grove start
    exact second value loose kept source mid outcome after grove rest

/-- Only how often an id is in hand matters. -/
theorem recount {taken' : List NodeId} (plants : Plants taken parser given)
    (same : ∀ x, taken.count x = taken'.count x) : Plants taken' parser given := by
  intro loose kept source before outcome after grove ran
  refine plants loose kept source before outcome after (grove.drop fun x => ?_) ran
  simp only [List.count_append, same]
  omega

/-- Other nodes may be in hand meanwhile. -/
theorem beside (plants : Plants [] parser given) (taken : List NodeId) :
    Plants taken parser fun value => taken ++ given value := by
  intro loose kept source before outcome after grove ran
  have ended := plants (taken ++ loose) kept source before outcome after grove ran
  cases outcome with
  | error error =>
    refine ended.drop fun x => ?_
    simp only [List.count_append]
    omega
  | ok value =>
    refine ended.drop fun x => ?_
    simp only [List.count_append]
    omega

theorem of_builder (same : ∀ source before outcome after,
    parser source before = some (outcome, after) → after.builder = before.builder)
    (taken : List NodeId) : Plants taken parser fun _ => taken := by
  intro loose kept source before outcome after grove ran
  have same := same source before outcome after ran
  cases outcome with
  | error error =>
    refine (same ▸ grove).drop fun x => ?_
    rw [List.count_append]
    omega
  | ok value => exact same ▸ grove

theorem of_onlyReads (reads : OnlyReads parser) (taken : List NodeId) :
    Plants taken parser fun _ => taken :=
  of_builder (fun source before outcome after ran => (reads source before outcome after ran).2) taken

theorem read (reads : OnlyReads parser) (second : ∀ value, Plants taken (next value) result) :
    Plants taken (parser >>= next) result :=
  (of_onlyReads reads taken).bind second

/-- What a first parser gives is taken by a second one, besides what is in hand. -/
theorem collect (first : Plants [] parser given)
    (second : ∀ value, Plants (taken ++ given value) (next value) result) :
    Plants taken (parser >>= next) result :=
  (first.beside taken).bind second

theorem throw (error : ParseError) : Plants [] (throw error : Parser α) given := by
  intro loose kept source before outcome after grove ran
  cases ran
  exact grove

/-- Behind an error, it does not matter what comes next. -/
theorem throw_bind (error : ParseError) :
    Plants taken ((MonadExcept.throw error : Parser α) >>= next) result := by
  intro loose kept source before outcome after grove ran
  cases (bind_of_error rfl).symm.trans ran
  refine grove.drop fun x => ?_
  rw [List.count_append]
  omega

theorem loop (start : σ) {round : σ → Parser (Round σ α)} (held : σ → List NodeId)
    (each : ∀ state, Plants (held state) (round state) fun
      | .again state => held state
      | .done value => given value) : Plants (held start) (loop start round) given := by
  have within (count : Nat) (state : σ) : Plants (held state) (rounds round count state) given := by
    induction count generalizing state with
    | zero =>
      intro loose kept source before outcome after grove ran
      cases ran
    | succ count ih =>
      refine (each state).bind fun
        | .again state => ih state
        | .done value => .pure rfl
  exact fun loose kept source => within source.budget start loose kept source

theorem recursive {body : Parser α → Parser α}
    (step : ∀ parser, Plants [] parser given → Plants [] (body parser) given) :
    Plants [] (recursive body) given := by
  have within (depth : Nat) : Plants [] (unroll body depth) given := by
    induction depth with
    | zero =>
      intro loose kept source before outcome after grove ran
      have absurd : none = some (outcome, after) := ran
      cases absurd
    | succ depth ih => exact step _ ih
  exact fun loose kept source => within source.budget loose kept source

theorem tryCatch {handle : ParseError → Parser α} (first : Plants [] parser given)
    (second : ∀ error, Plants [] (handle error) given) :
    Plants [] (tryCatch parser handle) given := by
  intro loose kept source before outcome after grove ran
  rw [tryCatch_apply] at ran
  split at ran
  · rename_i error mid start
    have grove := first loose kept source before _ _ grove start
    exact second error loose kept source mid outcome after grove ran
  · exact first loose kept source before outcome after grove ran

theorem mapError {change : ParseError → ParseError} (plants : Plants [] parser given) :
    Plants [] (mapError change parser) given :=
  plants.tryCatch fun _ => .throw _

theorem whileParsing (what : String) (name : Name) (plants : Plants [] parser given) :
    Plants [] (whileParsing what name parser) given :=
  .read (onlyReads_lookup name) fun _ => plants.mapError

theorem map {change : α → β} (plants : Plants taken parser given)
    (same : ∀ value, given value = result (change value)) : Plants taken (change <$> parser) result := by
  rw [map_eq_pure_bind]
  refine plants.bind fun value => ?_
  exact .pure (same value)

end Plants

theorem plants_build {change : Builder → α × Builder}
    (keeps : ∀ builder loose kept, builder.Grove loose kept → (change builder).2.Grove loose kept) :
    Plants [] (build change) fun _ => [] := by
  intro loose kept source before outcome after grove ran
  cases (build_apply change).symm.trans ran
  exact keeps before.builder loose kept grove

variable {taken : List NodeId}

theorem plants_build_store {node : Node} (inner : node.isEntry = false) (location : Location) :
    Plants node.children (build (·.store node location)) fun id => [id] := by
  intro loose kept source before outcome after grove ran
  cases (build_apply _).symm.trans ran
  exact grove.store inner location

theorem plants_store {node : Node} (inner : node.isEntry = false) (start : Span)
    (same : ∀ x, node.children.count x = taken.count x) :
    Plants taken (store node start) fun id => [id] :=
  .read (onlyReads_spanFrom start) fun span => .read (onlyReads_locate span) fun location =>
    (plants_build_store inner location).recount same

theorem add_apply (node : Node) (start : Span) (source : Source) (before : State) :
    ∃ location, add node start source before =
      some (.ok (), { before with builder := (before.builder.add node location).2 }) :=
  ⟨_, rfl⟩

theorem plants_build_add (node : Node) (closed : node.members = []) (location : Location) :
    Plants node.parts (build (·.add node location)) fun _ => [] := by
  intro loose kept source before outcome after grove ran
  cases (build_apply _).symm.trans ran
  refine Builder.Grove.add ?_ location
  rwa [closed]

theorem plants_add (node : Node) (closed : node.members = []) (start : Span)
    (same : ∀ x, node.parts.count x = taken.count x) :
    Plants taken (add node start) fun _ => [] :=
  .read (onlyReads_spanFrom start) fun span => .read (onlyReads_locate span) fun location =>
    ((plants_build_add node closed location).recount same).bind fun _ => .pure rfl

theorem settles_add (node : Node) {members : List NodeId} (scope : node.members = members)
    (start : Span) (same : ∀ x, node.parts.count x = taken.count x) :
    Settles taken members (add node start) := by
  intro loose kept source before outcome after grove ran
  obtain ⟨location, added⟩ := add_apply node start source before
  cases added.symm.trans ran
  refine Builder.Grove.add ?_ location
  rw [scope]
  refine grove.drop fun x => ?_
  simp only [List.count_append, same]
  omega

theorem plants_attach (id : NodeId) : Plants [id] (attach id) fun _ => [] := by
  intro loose kept source before outcome after grove ran
  cases ran
  exact grove.attach

theorem plants_report (error : ParseError) : Plants [] (report error) fun _ => [] :=
  .read (onlyReads_locate _) fun _ => plants_build fun _ _ _ grove => grove.report _

theorem plants_setCursor (cursor : Cursor) (taken : List NodeId) :
    Plants taken (setCursor cursor) fun _ => taken :=
  .of_builder (fun _ _ _ _ ran => by cases ran; rfl) taken

theorem plants_discardComments (taken : List NodeId) :
    Plants taken discardComments fun _ => taken :=
  .of_builder (fun _ _ _ _ ran => by cases ran; rfl) taken

theorem plants_forIn {step : Comment → PUnit → Parser (ForInStep PUnit)}
    (each : ∀ comment, Plants [] (step comment .unit) fun _ => []) (comments : List Comment) :
    Plants [] (forIn comments PUnit.unit step) fun _ => [] := by
  induction comments with
  | nil => exact .pure rfl
  | cons comment rest ih =>
    rw [List.forIn_cons]
    refine (each comment).bind fun
      | .done _ => .pure rfl
      | .yield _ => ih

theorem plants_flushComments : Plants [] flushComments fun _ => [] := by
  refine .read (.of_look fun _ _ => ⟨_, rfl⟩) fun cursor => ?_
  refine (plants_setCursor _ _).bind fun _ => ?_
  refine .bind (plants_forIn (fun comment => ?_) _) fun _ => .pure rfl
  refine .read (onlyReads_locate _) fun location => ?_
  exact (plants_build_add (.comment comment.text comment.style) rfl location).bind fun _ => .pure rfl

theorem plants_listUntil (close : Symbol) {item : Parser NodeId}
    (plants : Plants [] item fun id => [id]) : Plants [] (listUntil close item) id := by
  refine .loop [] id fun items => .read (onlyReads_eat _) fun isClosed => ?_
  split
  · exact .pure rfl
  · refine .collect plants fun last => .read (onlyReads_eat _) fun isComma => ?_
    split
    · exact .pure rfl
    · refine .read (onlyReads_expect _) fun _ => ?_
      exact .pure rfl

theorem plants_afterSymbol (symbol : Symbol) {parser : Parser NodeId}
    (plants : Plants [] parser fun id => [id]) : Plants [] (afterSymbol symbol parser) Option.toList := by
  refine .read (onlyReads_eat _) fun isThere => ?_
  split
  · exact plants.bind fun id => .pure rfl
  · exact .pure rfl

theorem plants_operation (operator : Operator) (operands : List NodeId) (start : Span) :
    Plants operands (storeOperation operator operands start) fun id => [id] :=
  plants_store rfl start (by simp [Node.children, Node.parts, Node.members])

section

variable {expression : Parser NodeId} (plants : Plants [] expression fun id => [id])
include plants

theorem plants_primary : Plants [] (primary expression) fun id => [id] := by
  have leaf (node : Node) (span : Span) (inner : node.isEntry = false) (alone : node.children = []) :
      Plants [] (do
        let _ ← advance
        let location ← locate span
        build (·.store node location)) fun id => [id] :=
    .read onlyReads_advance fun _ => .read (onlyReads_locate _) fun location =>
      (plants_build_store inner location).recount (by simp [alone])
  refine .read onlyReads_current fun token => ?_
  obtain ⟨kind, span⟩ := token
  cases kind with
  | identifier name => exact leaf _ _ rfl rfl
  | integer value => exact leaf _ _ rfl rfl
  | string content => exact leaf _ _ rfl rfl
  | symbol mark =>
    by_cases opens : mark = .parenOpen
    · subst opens
      refine .read onlyReads_advance fun _ => plants.bind fun inner => ?_
      exact .read (onlyReads_expect _) fun _ => .pure rfl
    · cases mark <;> first | exact .throw _ | exact absurd rfl opens
  | _ => exact .throw _

theorem plants_suffixed : Plants [] (suffixed expression) fun id => [id] := by
  refine .read onlyReads_currentSpan fun start => (plants_primary plants).bind fun head => ?_
  refine .loop _ (fun id => [id]) fun node => .read (onlyReads_eat _) fun isCall => ?_
  split
  · refine .collect (plants_listUntil _ plants) fun actuals => ?_
    refine .bind (plants_store rfl start ?_) fun id => .pure rfl
    simp [Node.children, Node.parts, Node.members]
  · refine .read (onlyReads_eat _) fun isField => ?_
    split
    · refine .read onlyReads_expectIdentifier fun name => ?_
      refine .bind (plants_store rfl start ?_) fun id => .pure rfl
      simp [Node.children, Node.parts, Node.members]
    · exact .pure rfl

theorem plants_signed : Plants [] (signed expression) fun id => [id] := by
  have apply (signs : List (Operator × Span)) (operand : NodeId) :
      Plants [operand] (applySigns operand signs) fun id => [id] := by
    induction signs generalizing operand with
    | nil => exact .pure rfl
    | cons sign rest ih =>
      rw [applySigns, List.foldlM_cons]
      exact (plants_operation _ _ _).bind ih
  rw [signed_eq]
  exact .read onlyReads_signs fun signs => (plants_suffixed plants).bind (apply signs)

end

theorem plants_leftAssociative (operators : List Operator) {operand : Parser NodeId}
    (plants : Plants [] operand fun id => [id]) :
    Plants [] (leftAssociative operators operand) fun id => [id] := by
  refine .read onlyReads_currentSpan fun start => plants.bind fun first => ?_
  refine .loop _ (fun id => [id]) fun left => .read onlyReads_kind fun kind => ?_
  split
  · exact .pure rfl
  · refine .read onlyReads_advance fun _ => .collect plants fun right => ?_
    exact (plants_operation _ _ _).bind fun id => .pure rfl

theorem plants_expression : Plants [] expression fun id => [id] := by
  refine .recursive fun expression plants => .read onlyReads_currentSpan fun start => ?_
  have binary : Plants [] (binary expression) fun id => [id] := by
    unfold Parser.binary
    generalize Operator.binaryLevels = levels
    induction levels with
    | nil => exact plants_signed plants
    | cons operators rest ih => exact plants_leftAssociative operators ih
  refine binary.bind fun target => .read (onlyReads_eat _) fun isAssigned => ?_
  split
  · exact .collect plants fun value => plants_operation _ _ _
  · exact .pure rfl

theorem plants_typeExpression : Plants [] typeExpression fun id => [id] :=
  (plants_suffixed plants_expression).mapError

/-- A list in braces, whose members are settled by what comes after it. -/
theorem plants_enclosed {members : Parser Unit} {opening : Span} {next : List NodeId → Parser Unit}
    (plants : Plants [] members fun _ => []) (settles : ∀ nodes, Settles taken nodes (next nodes)) :
    Plants taken (enclosed members opening >>= next) fun _ => [] := by
  intro loose kept source before outcome after grove ran
  have opened : before.openScope.builder.Grove (taken ++ loose) kept := grove.openScope
  obtain ⟨_, failed, rfl⟩ | ⟨nodes, closed, list, rest⟩ := ran_of_bind ran
  · obtain ⟨_, failed, -⟩ | ⟨_, _, ⟨⟩, _⟩ := enclosed_ran failed
    refine (plants (taken ++ loose) kept source _ _ _ opened failed).drop fun x => ?_
    rw [List.count_append]
    omega
  · obtain ⟨_, _, ⟨⟩⟩ | ⟨mid, start, ⟨⟩, rfl⟩ := enclosed_ran list
    have grove : mid.builder.Grove (taken ++ loose) kept :=
      plants (taken ++ loose) kept source _ _ _ opened start
    have closed : (mid.close source opening).builder.Grove (taken ++ loose)
        (mid.builder.closeScope.1 ++ kept) := by
      unfold State.close
      split
      · exact grove.closeScope
      · exact grove.closeScope.report _
    have settled := settles _ loose kept source _ outcome after closed rest
    cases outcome <;> exact settled

theorem plants_memberRound {member : Parser Unit} (plants : Plants [] member fun _ => []) :
    Plants [] (loop () fun _ => memberRound member) fun _ => [] := by
  refine .loop () (fun _ => []) fun _ => plants_flushComments.bind fun _ => ?_
  refine .read (onlyReads_isAt _) fun isClosed => .read onlyReads_isAtEnd fun isEnded => ?_
  split
  · exact .pure rfl
  · exact plants.bind fun _ => .pure rfl

section

variable {statement : Parser Unit} (plants : Plants [] statement fun _ => [])
include plants

theorem plants_moduleDeclaration (visibility : Visibility) (start : Span) :
    Plants [] (moduleDeclaration statement visibility start) fun _ => [] := by
  refine .read (onlyReads_eat _) fun isPrototype => .read (onlyReads_expect _) fun _ => ?_
  refine .read onlyReads_expectIdentifier fun name => .read (onlyReads_expect _) fun opening => ?_
  exact plants_enclosed (plants_memberRound plants) fun nodes =>
    settles_add (.moduleDecl name visibility isPrototype nodes) rfl start fun _ => rfl

theorem plants_blockStatement : Plants [] (blockStatement statement) fun _ => [] := by
  refine .read onlyReads_advance fun opening => ?_
  exact plants_enclosed (plants_memberRound plants) fun nodes =>
    settles_add (.block nodes) rfl _ fun _ => rfl

end

theorem plants_enumElement (name : Name) : Plants [] (enumElement name) fun _ => [] := by
  have named : Plants [] (whileParsing "enum" name expectIdentifier) fun _ => [] :=
    .whileParsing "enum" name (.of_onlyReads onlyReads_expectIdentifier [])
  refine .read onlyReads_currentSpan fun start => named.bind fun element => ?_
  refine .bind (.whileParsing "enum" name (plants_afterSymbol _ plants_expression)) fun init => ?_
  refine (plants_add (.enumElement element init) rfl start fun _ => rfl).bind fun _ => ?_
  refine .read (onlyReads_eat _) fun isComma => ?_
  split
  · exact .pure rfl
  · refine plants_flushComments.bind fun _ => .read (onlyReads_isAt _) fun isClosed => ?_
    refine .read onlyReads_isAtEnd fun isEnded => ?_
    split
    · exact .pure rfl
    · exact .read onlyReads_current fun _ => .whileParsing "enum" name (.throw _)

theorem plants_enumDeclaration (visibility : Visibility) (start : Span) :
    Plants [] (enumDeclaration visibility start) fun _ => [] := by
  rw [enumDeclaration_eq]
  refine .read onlyReads_advance fun _ => .read onlyReads_expectIdentifier fun name => ?_
  refine .read (onlyReads_expect _) fun opening => ?_
  refine plants_enclosed (plants_memberRound (plants_enumElement name)) fun nodes => ?_
  exact settles_add (.enumDecl name visibility nodes) rfl start fun _ => rfl

theorem plants_linkageName (linkage : Linkage) : Plants [] (linkageName linkage) Option.toList := by
  refine .read onlyReads_kind fun kind => ?_
  split
  · split
    · exact .pure rfl
    · exact (plants_primary plants_expression).bind fun id => .pure rfl
  · exact .pure rfl

theorem plants_formal : Plants [] formal fun id => [id] := by
  refine .read onlyReads_currentSpan fun start => .read onlyReads_intent fun intent => ?_
  refine .read onlyReads_expectIdentifier fun name => ?_
  refine .collect (plants_afterSymbol _ plants_typeExpression) fun type => ?_
  refine .collect (plants_afterSymbol _ plants_expression) fun init => ?_
  exact plants_store rfl start (by simp [Node.children, Node.parts, Node.members])

theorem plants_formals : Plants [] formals id :=
  .read (onlyReads_expect _) fun _ => plants_listUntil _ plants_formal

section

variable {start : Span} {linkage : Linkage} {name : Name} {declaration : Option (List NodeId) → Node}

theorem plants_functionEnd (closed : (declaration none).members = [])
    (same : ∀ x, (declaration none).parts.count x = taken.count x) :
    Plants taken (functionEnd start linkage name declaration none) fun _ => [] := by
  rw [functionEnd, if_neg (by simp)]
  exact plants_add (declaration none) closed start same

/-- The end of a function takes the members of its body. -/
theorem settles_functionEnd {nodes : List NodeId} (scope : (declaration (some nodes)).members = nodes)
    (same : ∀ x, (declaration (some nodes)).parts.count x = taken.count x) :
    Settles taken nodes (functionEnd start linkage name declaration (some nodes)) := by
  have added := settles_add (declaration (some nodes)) scope start same
  by_cases forbidden : linkage = .external
  · subst forbidden
    intro loose kept source before outcome after grove ran
    obtain ⟨message, span, told⟩ :=
      functionEnd_forbidden_eq start name declaration nodes source before
    have reported : report ⟨.invalidFunction message, span, none⟩ source before =
      some (.ok (), before.tell source ⟨.invalidFunction message, span, none⟩) := rfl
    rw [told, bind_of_ok reported] at ran
    exact added loose kept source _ outcome after (grove.report _) ran
  · rw [functionEnd, if_neg (by simp [forbidden])]
    exact added

theorem plants_functionBody {statement : Parser Unit} {next : Option (List NodeId) → Parser Unit}
    (plants : Plants [] statement fun _ => []) (absent : Plants taken (next none) fun _ => [])
    (present : ∀ nodes, Settles taken nodes (next (some nodes))) :
    Plants taken (functionBody statement >>= next) fun _ => [] := by
  rw [functionBody, bind_assoc]
  refine .read (onlyReads_eat _) fun isAbsent => ?_
  cases isAbsent with
  | true => exact absent
  | false =>
    simp only [Bool.false_eq_true, if_false, bind_assoc]
    refine .read (onlyReads_isAt _) fun isOpen => ?_
    cases isOpen with
    | true =>
      simp only [if_true, bind_assoc, pure_bind]
      refine .read onlyReads_advance fun opening => ?_
      exact plants_enclosed (plants_memberRound plants) present
    | false =>
      simp only [Bool.false_eq_true, if_false, bind_assoc]
      refine .read onlyReads_current fun token => ?_
      exact .throw_bind _

end

section

variable {statement : Parser Unit} (plants : Plants [] statement fun _ => [])
include plants

theorem plants_functionRest (visibility : Visibility) (start : Span) (linkage : Linkage)
    (linkageName : Option NodeId) : Plants linkageName.toList
      (functionRest statement visibility start linkage linkageName) fun _ => [] := by
  refine .read (onlyReads_eat _) fun isInline => .read (onlyReads_eat _) fun isOverride => ?_
  refine .read onlyReads_functionKind fun kind => .read onlyReads_expectIdentifier fun name => ?_
  refine .collect (.whileParsing "function" name plants_formals) fun formals => ?_
  refine .read onlyReads_returnIntent fun returnIntent => ?_
  refine .collect (plants_afterSymbol _ plants_typeExpression) fun returnType => ?_
  refine .read (onlyReads_eat _) fun doesThrow => .read (onlyReads_eat _) fun hasCondition => ?_
  have rest (condition : Option NodeId) : Plants
      (linkageName.toList ++ formals ++ returnType.toList ++ condition.toList) (do
        discardComments
        functionBody statement >>= functionEnd start linkage name fun body => .functionDecl
          { name, visibility, linkage, linkageName, kind, returnIntent, isInline, isOverride,
            doesThrow, formals, returnType, condition, body }) fun _ => [] := by
    refine (plants_discardComments _).bind fun _ => ?_
    refine plants_functionBody plants (plants_functionEnd rfl fun _ => rfl) fun nodes => ?_
    exact settles_functionEnd rfl fun _ => rfl
  cases hasCondition with
  | true => exact .collect (plants_expression.map fun _ => rfl) rest
  | false => exact (rest none).recount (by simp)

theorem plants_functionDeclaration (visibility : Visibility) (start : Span) :
    Plants [] (functionDeclaration statement visibility start) fun _ => [] := by
  rw [functionDeclaration_eq]
  refine .read onlyReads_linkage fun linkage => (plants_linkageName linkage).bind fun linkageName => ?_
  exact plants_functionRest plants visibility start linkage linkageName

end

theorem plants_variableDeclaration (visibility : Visibility) (start : Span) :
    Plants [] (variableDeclaration visibility start) fun _ => [] := by
  refine .read onlyReads_variableKind fun kind => .read onlyReads_expectIdentifier fun name => ?_
  refine .collect (plants_afterSymbol _ plants_typeExpression) fun type => ?_
  refine .collect (plants_afterSymbol _ plants_expression) fun init => ?_
  refine (plants_add (.variableDecl name visibility kind type init) rfl start fun _ => rfl).bind
    fun _ => ?_
  exact .read (onlyReads_expect _) fun _ => .pure rfl

theorem plants_returnStatement : Plants [] returnStatement fun _ => [] := by
  refine .read onlyReads_advance fun token => .read (onlyReads_isAt _) fun isEmpty => ?_
  have rest (value : Option NodeId) : Plants value.toList (do
      add (.result value) token.span
      let _ ← expectSymbol .semicolon) fun _ => [] :=
    (plants_add (.result value) rfl token.span fun _ => rfl).bind fun _ =>
      .read (onlyReads_expect _) fun _ => .pure rfl
  cases isEmpty with
  | true => exact rest none
  | false => exact .bind (plants_expression.map fun _ => rfl) rest

theorem plants_expressionStatement : Plants [] expressionStatement fun _ => [] :=
  plants_expression.bind fun id => (plants_attach id).bind fun _ =>
    .read (onlyReads_expect _) fun _ => .pure rfl

theorem plants_construct {statement : Parser Unit} (plants : Plants [] statement fun _ => []) :
    Plants [] (construct statement) fun _ => [] := by
  refine .read onlyReads_currentSpan fun start => .read onlyReads_visibility fun visibility => ?_
  have unmarked {next : Parser Unit} (plants : Plants [] next fun _ => []) : Plants [] (do
      if visibility ≠ .unmarked then
        throw (.unexpected "declaration" (← current))
      next) fun _ => [] := by
    dsimp only
    split
    · exact .read onlyReads_current fun _ => .throw_bind _
    · exact plants
  refine .read onlyReads_kind fun kind => ?_
  split
  iterate 2 exact plants_moduleDeclaration plants visibility start
  · exact plants_enumDeclaration visibility start
  iterate 6 exact plants_functionDeclaration plants visibility start
  iterate 4 exact plants_variableDeclaration visibility start
  · split
    · exact unmarked (plants_blockStatement plants)
    · exact unmarked plants_returnStatement
    · exact unmarked (.read onlyReads_advance fun _ => .pure rfl)
    · exact unmarked plants_expressionStatement

theorem plants_recover (start : Nat) (startSpan : Span) (depth : Nat) (error : ParseError) :
    Plants [] (recover start startSpan depth error) fun _ => [] := by
  have resumes : Plants [] (resume start startSpan depth) fun _ => [] := by
    have added : Plants [] (add .erroneous startSpan) fun _ => [] :=
      plants_add .erroneous rfl startSpan fun _ => rfl
    refine .bind (plants_build fun _ _ _ grove => grove.unwindTo depth) fun openBraces => ?_
    refine .read (onlyReads_skip start openBraces) fun _ => .read onlyReads_position fun place => ?_
    split
    · exact .read onlyReads_advance fun _ => added
    · exact added
  unfold recover
  split
  · exact resumes
  · exact (plants_report error).bind fun _ => resumes

theorem plants_statement : Plants [] statement fun _ => [] := by
  refine .recursive fun parser plants => .read onlyReads_position fun start => ?_
  refine .read onlyReads_currentSpan fun startSpan => ?_
  refine .read (.of_look fun _ _ => ⟨_, rfl⟩) fun state => ?_
  exact (plants_construct plants).tryCatch fun error => plants_recover _ _ _ error

theorem plants_program : Plants [] program fun _ => [] := by
  refine .loop () (fun _ => []) fun _ => plants_flushComments.bind fun _ => ?_
  refine .read onlyReads_isAtEnd fun isEnded => ?_
  split
  · exact .pure rfl
  · exact plants_statement.bind fun _ => .pure rfl

theorem grove_buildTokens (tokens : List TokenEntry) (lines : LineIndex) (names : Interner)
    {builder : Builder} (grove : builder.Grove [] []) :
    (buildTokens tokens lines names builder).Grove [] [] := by
  rw [buildTokens]
  split
  · rename_i outcome after ran
    have ended := plants_program [] [] _ _ outcome after grove ran
    cases outcome <;> exact ended
  · exact grove

end Parser

/-- However broken a text is, its tree is a forest: each node is mentioned at most once, by a later
one. Each entry that was recognised is met once on a walk and has one line of the outline. -/
theorem SourceUnit.isForest_parse (unit : SourceUnit) (text : String) (names : Interner) :
    (unit.parse text names).1.tree.IsForest ∧ (unit.parse text names).1.tree.IsWalked := by
  have forest : (unit.parse text names).1.tree.IsForest :=
    (Parser.grove_buildTokens _ _ _ (Builder.grove_ofUnit unit _)).isForest
  exact ⟨forest, forest.isWalked⟩

end IncrementalFrontend
