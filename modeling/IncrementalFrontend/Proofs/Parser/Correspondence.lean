import IncrementalFrontend.Proofs.Parser.Likeness
import IncrementalFrontend.Proofs.Parser.Planting

/-!
On tokens that are alike, each production builds nodes that are alike and reports alike diagnostics.
A production is followed line by line, on both sides at once.
-/
namespace IncrementalFrontend

namespace Parser

namespace Setting

variable {α : Type} {setting : Setting} {rel : α → α → Prop}

section

variable {node node' : Node} {start start' : Span}
  (same : setting.like.Nodes node (node'.shift setting.shift)) (spans : setting.like.span start start')
include same

theorem agree_build_store {location location' : Location}
    (located : setting.like.location location location') : setting.Agree setting.Ids
      (build (·.store node location)) (build (·.store node' location')) :=
  agree_build fun _ _ builders => builders.store same located

theorem agree_build_add {location location' : Location}
    (located : setting.like.location location location') : setting.Agree (fun _ _ => True)
      (build (·.add node location)) (build (·.add node' location')) :=
  agree_build fun _ _ builders => ⟨trivial, builders.add same located⟩

include spans

theorem agree_store : setting.Agree setting.Ids (store node start) (store node' start') :=
  (agree_spanFrom spans).bind fun _ _ spans => (agree_locate spans).bind fun _ _ located =>
    agree_build_store same located

theorem agree_add : setting.Agree Eq (add node start) (add node' start') :=
  (agree_spanFrom spans).bind fun _ _ spans => (agree_locate spans).bind fun _ _ located =>
    (agree_build_add same located).bind fun _ _ _ => .pure rfl

end

theorem agree_attach {id id' : NodeId} (same : setting.Ids id id') :
    setting.Agree Eq (attach id) (attach id') :=
  agree_build fun _ _ builders => ⟨rfl, builders.attach same⟩

theorem agree_openScope : setting.Agree Eq openScope openScope :=
  agree_build fun _ _ builders => ⟨rfl, builders.openScope⟩

theorem agree_closeScope : setting.Agree setting.Lists closeScope closeScope :=
  agree_build fun _ _ builders => builders.closeScope

theorem agree_reportDiagnostic {diagnostic diagnostic' : Diagnostic}
    (same : setting.like.Diagnostics diagnostic diagnostic') :
    setting.Agree Eq (reportDiagnostic diagnostic) (reportDiagnostic diagnostic') :=
  agree_build fun _ _ builders => ⟨rfl, builders.report same⟩

theorem agree_report {error error' : ParseError} (same : setting.like.Errors error error') :
    setting.Agree Eq (report error) (report error') :=
  (agree_locate same.span).bind fun _ _ located => agree_reportDiagnostic (same.diagnostic located)

theorem agree_forIn {step step' : Comment → PUnit → Parser (ForInStep PUnit)}
    (each : ∀ comment comment', setting.like.Comments comment comment' →
      setting.Agree Eq (step comment .unit) (step' comment' .unit)) {comments comments' : List Comment}
    (pairs : List.Forall₂ setting.like.Comments comments comments') :
    setting.Agree Eq (forIn comments PUnit.unit step) (forIn comments' PUnit.unit step') := by
  induction pairs with
  | nil => exact .pure rfl
  | cons first others ih =>
    rw [List.forIn_cons, List.forIn_cons]
    refine (each _ _ first).same fun
      | .done _ => .pure rfl
      | .yield _ => ih

theorem agree_flushComments : setting.Agree Eq flushComments flushComments := by
  refine agree_cursor.bind fun cursor cursor' cursors => ?_
  refine (agree_setCursor cursors.clearComments).same fun _ => ?_
  refine .same (agree_forIn (fun comment comment' alike => ?_) cursors.waiting) fun _ => .pure rfl
  refine (agree_locate alike.span).bind fun location location' located => ?_
  refine .bind (agree_build_add ?_ located) fun _ _ _ => .pure rfl
  rw [alike.style]
  exact .comment comment'.style alike.text

theorem agree_discardComments : setting.Agree Eq discardComments discardComments :=
  agree_cursor.bind fun _ _ cursors => agree_setCursor cursors.clearComments

theorem agree_mapError {change : ParseError → ParseError} {parser parser' : Parser α}
    (alike : ∀ error error', setting.like.Errors error error' →
      setting.like.Errors (change error) (change error'))
    (agree : setting.Agree rel parser parser') :
    setting.Agree rel (mapError change parser) (mapError change parser') :=
  agree.tryCatch fun error error' same => .throw (alike error error' same)

theorem agree_whileParsing {parser parser' : Parser α} (what : String) {name name' : Name}
    (same : setting.like.name name name') (agree : setting.Agree rel parser parser') :
    setting.Agree rel (whileParsing what name parser) (whileParsing what name' parser') :=
  (agree_lookup same).same fun _ => agree_mapError (fun _ _ alike => ⟨alike.kind, alike.span, rfl⟩) agree

theorem agree_throw_unexpected {β : Type} {rel : β → β → Prop} (expected : String)
    {next next' : α → Parser β} : setting.Agree rel
      (current >>= fun token => (throw (.unexpected expected token) : Parser α) >>= next)
      (current >>= fun token => (throw (.unexpected expected token) : Parser α) >>= next') :=
  agree_current.bind fun _ _ tokens =>
    have fails : setting.Agree (fun _ _ : α => False) (throw (.unexpected expected _))
      (throw (.unexpected expected _)) := .throw (Errors.unexpected expected tokens)
    fails.bind nofun

section

variable {parser parser' : Parser NodeId} (agree : setting.Agree setting.Ids parser parser')
include agree

theorem agree_listUntil {close : Symbol} :
    setting.Agree setting.Lists (listUntil close parser) (listUntil close parser') := by
  refine .loop setting.Lists rfl fun items items' alike => ?_
  refine (agree_eat rfl).same fun isClosed => ?_
  split
  · exact .pure (.done alike)
  · refine agree.bind fun last last' same => (agree_eat rfl).same fun isComma => ?_
    have longer : setting.Lists (items ++ [last]) (items' ++ [last']) := by
      simp_all [Lists, Ids]
    split
    · exact .pure (.again longer)
    · exact (agree_expect rfl).bind fun _ _ _ => .pure (.done longer)

theorem agree_afterSymbol (symbol : Symbol) :
    setting.Agree setting.Options (afterSymbol symbol parser) (afterSymbol symbol parser') := by
  refine (agree_eat rfl).same fun isThere => ?_
  split
  · exact agree.bind fun id id' same => .pure (congrArg some same)
  · exact .pure rfl

end

theorem agree_operation {operands operands' : List NodeId} {start start' : Span} (operator : Operator)
    (same : setting.Lists operands operands') (spans : setting.like.span start start') :
    setting.Agree setting.Ids (storeOperation operator operands start)
      (storeOperation operator operands' start') := by
  subst same
  exact agree_store (.operation operator _) spans

section

variable {expression expression' : Parser NodeId}
  (agree : setting.Agree setting.Ids expression expression')
include agree

theorem agree_primary : setting.Agree setting.Ids (primary expression) (primary expression') := by
  have leaf {node node' : Node} {span span' : Span}
      (same : setting.like.Nodes node (node'.shift setting.shift))
      (spans : setting.like.span span span') : setting.Agree setting.Ids (do
        let _ ← advance
        let location ← locate span
        build (·.store node location)) (do
        let _ ← advance
        let location ← locate span'
        build (·.store node' location)) :=
    agree_advance.bind fun _ _ _ => (agree_locate spans).bind fun _ _ located =>
      agree_build_store same located
  refine agree_current.bind fun token token' tokens => ?_
  have fails : setting.Agree setting.Ids (throw (.noExpression token)) (throw (.noExpression token')) :=
    .throw ⟨.expectedExpression tokens.kind, tokens.span, rfl⟩
  obtain ⟨kind, span⟩ := token
  obtain ⟨kind', span'⟩ := token'
  have kinds : setting.like.Kinds kind kind' := tokens.kind
  cases kinds with
  | identifier same => exact leaf (.identifier same) tokens.span
  | integer value => exact leaf (.integer value) tokens.span
  | string same => exact leaf (.string same) tokens.span
  | symbol mark =>
    by_cases opens : mark = .parenOpen
    · subst opens
      refine agree_advance.bind fun _ _ _ => agree.bind fun inner inner' same => ?_
      exact (agree_expect rfl).bind fun _ _ _ => .pure same
    · cases mark <;> first | exact fails | exact absurd rfl opens
  | _ => exact fails

theorem agree_suffixed : setting.Agree setting.Ids (suffixed expression) (suffixed expression') := by
  refine agree_currentSpan.bind fun start start' spans => ?_
  refine (agree_primary agree).bind fun head head' same => ?_
  refine .loop setting.Ids same fun node node' same => ?_
  refine (agree_eat rfl).same fun isCall => ?_
  split
  · refine (agree_listUntil agree).bind fun actuals actuals' alike => ?_
    refine .bind (agree_store ?_ spans) fun id id' same => .pure (.again same)
    rw [same, alike]
    exact .call _ _
  · refine (agree_eat rfl).same fun isField => ?_
    split
    · refine agree_expectIdentifier.bind fun name name' named => ?_
      refine .bind (agree_store ?_ spans) fun id id' same => .pure (.again same)
      rw [same]
      exact .field _ named
    · exact .pure (.done same)

end

theorem operatorAmong_eq {kind kind' : TokenKind} (kinds : setting.like.Kinds kind kind')
    (operators : List Operator) : kind.operatorAmong? operators = kind'.operatorAmong? operators := by
  refine congrArg (operators.find? ·) (funext fun operator => ?_)
  rw [Bool.eq_iff_iff, beq_iff_eq, beq_iff_eq]
  exact kinds.eq_iff rfl

def Signs (setting : Setting) (sign sign' : Operator × Span) : Prop :=
  sign.1 = sign'.1 ∧ setting.like.span sign.2 sign'.2

theorem agree_signs : setting.Agree (List.Forall₂ setting.Signs) signs signs := by
  refine .loop (List.Forall₂ setting.Signs) .nil fun signs signs' alike => ?_
  refine agree_kind.bind fun kind kind' kinds => ?_
  rw [operatorAmong_eq kinds]
  split
  · exact agree_advance.bind fun token token' tokens => .pure (.again (.cons ⟨rfl, tokens.span⟩ alike))
  · exact .pure (.done alike)

theorem agree_signed {expression expression' : Parser NodeId}
    (agree : setting.Agree setting.Ids expression expression') :
    setting.Agree setting.Ids (signed expression) (signed expression') := by
  refine agree_signs.bind fun signs signs' alike => ?_
  refine (agree_suffixed agree).bind fun operand operand' same => ?_
  induction alike generalizing operand operand' with
  | nil => exact .pure same
  | @cons sign sign' rest rest' first others ih =>
    obtain ⟨operator, start⟩ := sign
    obtain ⟨operator', start'⟩ := sign'
    obtain ⟨rfl, spans⟩ := first
    rw [List.foldlM_cons, List.foldlM_cons]
    have alike : setting.Lists [operand] [operand'] := congrArg ([·]) same
    exact (agree_operation operator alike spans).bind ih

theorem agree_leftAssociative (operators : List Operator) {operand operand' : Parser NodeId}
    (agree : setting.Agree setting.Ids operand operand') :
    setting.Agree setting.Ids (leftAssociative operators operand)
      (leftAssociative operators operand') := by
  refine agree_currentSpan.bind fun start start' spans => agree.bind fun first first' same => ?_
  refine .loop setting.Ids same fun left left' same => ?_
  refine agree_kind.bind fun kind kind' kinds => ?_
  rw [operatorAmong_eq kinds]
  split
  · exact .pure (.done same)
  · rename_i operator _
    refine agree_advance.bind fun _ _ _ => agree.bind fun right right' same' => ?_
    refine .bind (agree_operation operator ?_ spans) fun id id' same => .pure (.again same)
    rw [same, same']
    rfl

theorem agree_expression : setting.Agree setting.Ids expression expression := by
  refine .recursive fun expression expression' agree => ?_
  refine agree_currentSpan.bind fun start start' spans => ?_
  have binary : setting.Agree setting.Ids (binary expression) (binary expression') := by
    unfold Parser.binary
    generalize Operator.binaryLevels = levels
    induction levels with
    | nil => exact agree_signed agree
    | cons operators rest ih => exact agree_leftAssociative operators ih
  refine binary.bind fun target target' same => (agree_eat rfl).same fun isAssigned => ?_
  split
  · refine agree.bind fun value value' same' => agree_operation .assign ?_ spans
    rw [same, same']
    rfl
  · exact .pure same

theorem agree_someExpression :
    setting.Agree setting.Options (some <$> expression) (some <$> expression) :=
  agree_expression.map fun _ _ same => congrArg some same

theorem agree_typeExpression : setting.Agree setting.Ids typeExpression typeExpression :=
  agree_mapError (fun _ _ alike => alike.inTypePosition) (agree_suffixed agree_expression)

theorem agree_closeBrace {opening opening' : Span} (same : setting.like.span opening opening') :
    setting.Agree Eq (closeBrace opening) (closeBrace opening') := by
  refine (agree_eat rfl).same fun isClosed => ?_
  split
  · exact .pure rfl
  · exact (agree_locate same).bind fun _ _ located =>
      agree_reportDiagnostic ⟨rfl, rfl, rfl, rfl, located⟩

theorem agree_enclosed {members members' : Parser Unit} {opening opening' : Span}
    (agree : setting.Agree Eq members members') (same : setting.like.span opening opening') :
    setting.Agree setting.Lists (enclosed members opening) (enclosed members' opening') :=
  agree_openScope.same fun _ => agree.same fun _ => agree_closeScope.bind fun _ _ alike =>
    (agree_closeBrace same).same fun _ => .pure alike

theorem agree_members {member member' : Parser Unit} (agree : setting.Agree Eq member member') :
    setting.Agree Eq (loop () fun _ => memberRound member) (loop () fun _ => memberRound member') := by
  refine .loop Eq rfl fun _ _ _ => agree_flushComments.same fun _ => ?_
  refine (agree_isAt rfl).same fun isClosed => agree_isAtEnd.same fun isEnded => ?_
  split
  · exact .pure (.done rfl)
  · exact agree.same fun _ => .pure (.again rfl)

section

variable {statement statement' : Parser Unit} (agree : setting.Agree Eq statement statement')
  {start start' : Span} (spans : setting.like.span start start')
include agree

theorem agree_bracedMembers {opening opening' : Span} (same : setting.like.span opening opening') :
    setting.Agree setting.Lists (bracedMembers statement opening) (bracedMembers statement' opening') :=
  agree_enclosed (agree_members agree) same

theorem agree_blockStatement :
    setting.Agree Eq (blockStatement statement) (blockStatement statement') := by
  refine agree_advance.bind fun opening opening' tokens => ?_
  refine (agree_bracedMembers agree tokens.span).bind fun members members' same => ?_
  subst same
  exact agree_add (.block _) tokens.span

include spans

theorem agree_moduleDeclaration (visibility : Visibility) : setting.Agree Eq
    (moduleDeclaration statement visibility start) (moduleDeclaration statement' visibility start') := by
  refine (agree_eat rfl).same fun isPrototype => (agree_expect rfl).bind fun _ _ _ => ?_
  refine agree_expectIdentifier.bind fun name name' named => ?_
  refine (agree_expect rfl).bind fun opening opening' tokens => ?_
  refine (agree_bracedMembers agree tokens.span).bind fun members members' same => ?_
  subst same
  exact agree_add (.moduleDecl visibility isPrototype _ named) spans

end

theorem agree_enumElement {name name' : Name} (named : setting.like.name name name') :
    setting.Agree Eq (enumElement name) (enumElement name') := by
  refine agree_currentSpan.bind fun start start' spans => ?_
  refine (agree_whileParsing "enum" named agree_expectIdentifier).bind fun element element' alike => ?_
  refine .bind (agree_whileParsing "enum" named (agree_afterSymbol agree_expression _))
    fun init init' same => ?_
  subst same
  refine (agree_add (.enumElement _ alike) spans).same fun _ => (agree_eat rfl).same fun isComma => ?_
  split
  · exact .pure rfl
  · refine agree_flushComments.same fun _ => (agree_isAt rfl).same fun isClosed => ?_
    refine agree_isAtEnd.same fun isEnded => ?_
    split
    · exact .pure rfl
    · refine agree_current.bind fun token token' tokens => ?_
      exact agree_whileParsing "enum" named (.throw (Errors.unexpected _ tokens))

theorem agree_enumDeclaration {start start' : Span} (spans : setting.like.span start start')
    (visibility : Visibility) :
    setting.Agree Eq (enumDeclaration visibility start) (enumDeclaration visibility start') := by
  rw [enumDeclaration_eq, enumDeclaration_eq]
  refine agree_advance.bind fun _ _ _ => agree_expectIdentifier.bind fun name name' named => ?_
  refine (agree_expect rfl).bind fun opening opening' tokens => ?_
  refine .bind (agree_enclosed (agree_members (agree_enumElement named)) tokens.span)
    fun members members' same => ?_
  subst same
  exact agree_add (.enumDecl visibility _ named) spans

theorem agree_linkage : setting.Agree Eq linkage linkage := by
  refine (agree_eat rfl).same fun isExternal => ?_
  split
  · exact .pure rfl
  · refine (agree_eat rfl).same fun isExported => ?_
    split <;> exact .pure rfl

theorem agree_linkageName (linkage : Linkage) :
    setting.Agree setting.Options (linkageName linkage) (linkageName linkage) := by
  refine agree_kind.bind fun kind kind' kinds => ?_
  cases kinds with
  | string same =>
    dsimp only
    split
    · exact .pure rfl
    · exact (agree_primary agree_expression).bind fun id id' same => .pure (congrArg some same)
  | _ => exact .pure rfl

theorem agree_functionKind : setting.Agree Eq functionKind functionKind := by
  refine (agree_eat rfl).same fun isProcedure => ?_
  split
  · exact .pure rfl
  · refine (agree_eat rfl).same fun isIterator => ?_
    split
    · exact .pure rfl
    · exact agree_current.bind fun _ _ tokens => .throw (Errors.unexpected _ tokens)

theorem agree_intent : setting.Agree Eq intent intent := by
  have consumed (intent : Intent) : setting.Agree Eq
      (do let _ ← advance; return intent) (do let _ ← advance; return intent) :=
    agree_advance.bind fun _ _ _ => .pure rfl
  refine agree_kind.bind fun kind kind' kinds => ?_
  cases kinds with
  | keyword word =>
    by_cases constant : word = .kwConst
    · subst constant
      exact agree_advance.bind fun _ _ _ => (agree_eat rfl).same fun _ => .pure rfl
    · cases word <;> first | exact .pure rfl | exact consumed _ | exact absurd rfl constant
  | _ => exact .pure rfl

theorem agree_returnIntent : setting.Agree Eq returnIntent returnIntent := by
  have consumed (intent : ReturnIntent) : setting.Agree Eq
      (do let _ ← advance; return intent) (do let _ ← advance; return intent) :=
    agree_advance.bind fun _ _ _ => .pure rfl
  refine agree_kind.bind fun kind kind' kinds => ?_
  cases kinds with
  | keyword word =>
    by_cases constant : word = .kwConst
    · subst constant
      exact agree_advance.bind fun _ _ _ => (agree_eat rfl).same fun _ => .pure rfl
    · cases word <;> first | exact .pure rfl | exact consumed _ | exact absurd rfl constant
  | _ => exact .pure rfl

theorem agree_formal : setting.Agree setting.Ids formal formal := by
  refine agree_currentSpan.bind fun start start' spans => agree_intent.same fun intent => ?_
  refine agree_expectIdentifier.bind fun name name' named => ?_
  refine (agree_afterSymbol agree_typeExpression _).bind fun type type' types => ?_
  refine (agree_afterSymbol agree_expression _).bind fun init init' inits => ?_
  subst types inits
  exact agree_store (.formal intent _ _ named) spans

theorem agree_formals : setting.Agree setting.Lists formals formals :=
  (agree_expect rfl).bind fun _ _ _ => agree_listUntil agree_formal

/-- What comes behind the header of a function. -/
theorem agree_functionEnd {start start' : Span} {name name' : Name}
    {declaration declaration' : Option (List NodeId) → Node} {body body' : Option (List NodeId)}
    (spans : setting.like.span start start') (linkage : Linkage) (named : setting.like.name name name')
    (bodies : body = body'.map (·.map (· + setting.shift)))
    (alike : setting.like.Nodes (declaration body) ((declaration' body').shift setting.shift)) :
    setting.Agree Eq (functionEnd start linkage name declaration body)
      (functionEnd start' linkage name' declaration' body') := by
  have added := agree_add alike spans
  have present : body.isSome = body'.isSome := by
    rw [bodies, Option.isSome_map]
  unfold functionEnd
  rw [present]
  split
  · refine (agree_lookup named).same fun text => (agree_spanFrom spans).bind fun span span' same => ?_
    have errors (message : String) : setting.like.Errors ⟨.invalidFunction message, span, none⟩
      ⟨.invalidFunction message, span', none⟩ := ⟨.invalidFunction message, same, rfl⟩
    exact (agree_report (errors _)).same fun _ => added
  · exact added

section

variable {statement statement' : Parser Unit} (agree : setting.Agree Eq statement statement')
  {start start' : Span} (spans : setting.like.span start start')
include agree

theorem agree_functionBody : setting.Agree
    (fun body body' => body = body'.map (·.map (· + setting.shift)))
    (functionBody statement) (functionBody statement') := by
  refine (agree_eat rfl).same fun isAbsent => ?_
  split
  · exact .pure rfl
  · refine (agree_isAt rfl).same fun isOpen => ?_
    split
    · refine agree_advance.bind fun opening opening' tokens => ?_
      refine (agree_bracedMembers agree tokens.span).bind fun members members' same => ?_
      exact .pure (congrArg some same)
    · exact agree_current.bind fun _ _ tokens => .throw (Errors.unexpected _ tokens)

include spans

theorem agree_functionRest (visibility : Visibility) (linkage : Linkage)
    {linkageName linkageName' : Option NodeId} (same : setting.Options linkageName linkageName') :
    setting.Agree Eq (functionRest statement visibility start linkage linkageName)
      (functionRest statement' visibility start' linkage linkageName') := by
  refine (agree_eat rfl).same fun isInline => (agree_eat rfl).same fun isOverride => ?_
  refine agree_functionKind.same fun kind => agree_expectIdentifier.bind fun name name' named => ?_
  refine (agree_whileParsing "function" named agree_formals).bind fun formals formals' lists => ?_
  refine agree_returnIntent.same fun returnIntent => ?_
  refine (agree_afterSymbol agree_typeExpression _).bind fun returnType returnType' types => ?_
  refine (agree_eat rfl).same fun doesThrow => (agree_eat rfl).same fun hasCondition => ?_
  have rest {condition condition' : Option NodeId} (conditions : setting.Options condition condition') :
      setting.Agree Eq (do
        discardComments
        functionBody statement >>= functionEnd start linkage name fun body => .functionDecl
          { name, visibility, linkage, linkageName, kind, returnIntent, isInline, isOverride,
            doesThrow, formals, returnType, condition, body }) (do
        discardComments
        functionBody statement' >>= functionEnd start' linkage name' fun body => .functionDecl
          { name := name', visibility, linkage, linkageName := linkageName', kind, returnIntent,
            isInline, isOverride, doesThrow, formals := formals', returnType := returnType',
            condition := condition', body }) := by
    refine agree_discardComments.same fun _ => (agree_functionBody agree).bind fun body body' bodies => ?_
    refine agree_functionEnd spans linkage named bodies ?_
    subst same lists types conditions bodies
    exact .functionDecl (Function.shift setting.shift
      { name := name', visibility, linkage, linkageName := linkageName', kind, returnIntent,
        isInline, isOverride, doesThrow, formals := formals', returnType := returnType',
        condition := condition', body := body' }) named
  cases hasCondition with
  | true =>
    exact agree_someExpression.bind fun _ _ same => rest same
  | false => exact rest rfl

theorem agree_functionDeclaration (visibility : Visibility) : setting.Agree Eq
    (functionDeclaration statement visibility start)
    (functionDeclaration statement' visibility start') := by
  rw [functionDeclaration_eq, functionDeclaration_eq]
  refine agree_linkage.same fun linkage => (agree_linkageName linkage).bind fun _ _ same => ?_
  exact agree_functionRest agree spans visibility linkage same

end

theorem agree_variableKind : setting.Agree Eq variableKind variableKind := by
  refine agree_advance.bind fun token token' tokens => ?_
  obtain ⟨kind, span⟩ := token
  obtain ⟨kind', span'⟩ := token'
  have kinds : setting.like.Kinds kind kind' := tokens.kind
  cases kinds with
  | keyword word => cases word <;> exact .pure rfl
  | _ => exact .pure rfl

theorem agree_variableDeclaration {start start' : Span} (spans : setting.like.span start start')
    (visibility : Visibility) :
    setting.Agree Eq (variableDeclaration visibility start) (variableDeclaration visibility start') := by
  refine agree_variableKind.same fun kind => agree_expectIdentifier.bind fun name name' named => ?_
  refine (agree_afterSymbol agree_typeExpression _).bind fun type type' types => ?_
  refine (agree_afterSymbol agree_expression _).bind fun init init' inits => ?_
  subst types inits
  refine (agree_add (.variableDecl visibility kind _ _ named) spans).same fun _ => ?_
  exact (agree_expect rfl).bind fun _ _ _ => .pure rfl

theorem agree_returnStatement : setting.Agree Eq returnStatement returnStatement := by
  refine agree_advance.bind fun token token' tokens => (agree_isAt rfl).same fun isEmpty => ?_
  have rest {value value' : Option NodeId} (values : setting.Options value value') :
      setting.Agree Eq (do
        add (.result value) token.span
        let _ ← expectSymbol .semicolon) (do
        add (.result value') token'.span
        let _ ← expectSymbol .semicolon) := by
    subst values
    exact (agree_add (.result _) tokens.span).same fun _ => (agree_expect rfl).bind fun _ _ _ => .pure rfl
  cases isEmpty with
  | true => exact rest rfl
  | false =>
    exact agree_someExpression.bind fun _ _ same => rest same

theorem agree_expressionStatement : setting.Agree Eq expressionStatement expressionStatement :=
  agree_expression.bind fun _ _ same => (agree_attach same).same fun _ =>
    (agree_expect rfl).bind fun _ _ _ => .pure rfl

theorem agree_visibility : setting.Agree Eq visibility visibility := by
  refine (agree_eat rfl).same fun isPublic => ?_
  split
  · exact .pure rfl
  · refine (agree_eat rfl).same fun isPrivate => ?_
    split <;> exact .pure rfl

theorem agree_construct {statement statement' : Parser Unit}
    (agree : setting.Agree Eq statement statement') :
    setting.Agree Eq (construct statement) (construct statement') := by
  refine agree_currentSpan.bind fun start start' spans => agree_visibility.same fun visibility => ?_
  have unmarked {next next' : Parser Unit} (agree : setting.Agree Eq next next') :
      setting.Agree Eq (do
        if visibility ≠ .unmarked then
          throw (.unexpected "declaration" (← current))
        next) (do
        if visibility ≠ .unmarked then
          throw (.unexpected "declaration" (← current))
        next') := by
    dsimp only
    split
    · exact agree_throw_unexpected _
    · exact agree
  have modules := agree_moduleDeclaration agree spans visibility
  have enums := agree_enumDeclaration spans visibility
  have functions := agree_functionDeclaration agree spans visibility
  have holders := agree_variableDeclaration spans visibility
  have expressions := unmarked agree_expressionStatement
  refine agree_kind.bind fun kind kind' kinds => ?_
  cases kinds with
  | keyword word =>
    cases word with
    | kwModule | kwPrototype => exact modules
    | kwEnum => exact enums
    | kwExtern | kwExport | kwInline | kwOverride | kwProc | kwIter => exact functions
    | kwVar | kwConst | kwParam | kwRef => exact holders
    | kwReturn => exact unmarked agree_returnStatement
    | _ => exact expressions
  | symbol mark =>
    cases mark with
    | braceOpen => exact unmarked (agree_blockStatement agree)
    | semicolon => exact unmarked (agree_advance.bind fun _ _ _ => .pure rfl)
    | _ => exact expressions
  | _ => exact expressions

theorem agree_skip {start start' : Nat} (same : start = setting.ahead + start') (openBraces : Nat) :
    setting.Agree Eq (skip start openBraces) (skip start' openBraces) := by
  refine .loop Eq rfl fun openBraces _ equal => ?_
  subst equal
  have ends : setting.Agree (Rounds Eq Eq) (pure (.done ())) (pure (.done () : Round Nat Unit)) :=
    .pure (.done rfl)
  have leaves : setting.Agree (Rounds Eq Eq) (do let _ ← advance; return .done ())
      (do let _ ← advance; return (.done () : Round Nat Unit)) :=
    agree_advance.bind fun _ _ _ => ends
  have steps (opened : Nat) : setting.Agree (Rounds Eq Eq)
      (do let _ ← advance; return .again opened)
      (do let _ ← advance; return (.again opened : Round Nat Unit)) :=
    agree_advance.bind fun _ _ _ => .pure (.again rfl)
  have passes (declares : Bool) : setting.Agree (Rounds Eq Eq) (do
      if declares && start < (← position) then
        return .done ()
      let _ ← advance
      return .again 0) (do
      if declares && start' < (← position) then
        return .done ()
      let _ ← advance
      return (.again 0 : Round Nat Unit)) := by
    refine agree_position.bind fun place place' places => ?_
    have further : start < place ↔ start' < place' := by omega
    simp only [further]
    split
    · exact ends
    · exact steps 0
  refine agree_kind.bind fun kind kind' kinds => ?_
  cases kinds with
  | endOfFile => exact ends
  | symbol mark =>
    cases mark with
    | semicolon =>
      match openBraces with
      | 0 => exact leaves
      | outer + 1 => exact steps (outer + 1)
    | braceOpen => exact steps (openBraces + 1)
    | braceClose =>
      match openBraces with
      | 0 => exact ends
      | 1 => exact leaves
      | outer + 2 => exact steps (outer + 1)
    | _ =>
      match openBraces with
      | 0 => exact passes false
      | outer + 1 => exact steps (outer + 1)
  | keyword word =>
    match openBraces with
    | 0 => exact passes word.startsDeclaration
    | outer + 1 => exact steps (outer + 1)
  | _ =>
    match openBraces with
    | 0 => exact passes false
    | outer + 1 => exact steps (outer + 1)

theorem agree_recover {start start' depth : Nat} {span span' : Span} {error error' : ParseError}
    (same : start = setting.ahead + start') (spans : setting.like.span span span')
    (errors : setting.like.Errors error error') :
    setting.Agree Eq (recover start span depth error) (recover start' span' depth error') := by
  have resumes : setting.Agree Eq (resume start span depth) (resume start' span' depth) := by
    have added : setting.Agree Eq (add .erroneous span) (add .erroneous span') :=
      agree_add .erroneous spans
    refine .same (agree_build fun _ _ builders => builders.unwindTo depth) fun openBraces => ?_
    refine (agree_skip same openBraces).same fun _ => agree_position.bind fun place place' places => ?_
    have stays : place = start ↔ place' = start' := by omega
    simp only [stays]
    split
    · exact agree_advance.bind fun _ _ _ => added
    · exact added
  unfold recover
  simp only [errors.found_iff]
  split
  · exact resumes
  · exact (agree_report errors).same fun _ => resumes

theorem agree_recoveringStatement {statement statement' : Parser Unit}
    (agree : setting.Agree Eq statement statement') :
    setting.Agree Eq (recoveringStatement statement) (recoveringStatement statement') := by
  have depths : setting.Agree (fun state state' => state.builder.depth = state'.builder.depth)
      (get : Parser State) (get : Parser State) := by
    intro before before' outcome outcome' after after' states ran ran'
    cases ran
    cases ran'
    exact ⟨.ok states.builder.depth, states⟩
  refine agree_position.bind fun start start' same => agree_currentSpan.bind fun span span' spans => ?_
  refine depths.bind fun state state' depth => ?_
  rw [depth]
  exact (agree_construct agree).tryCatch fun error error' errors => agree_recover same spans errors

theorem agree_unroll (depth depth' : Nat) : setting.Agree Eq (unroll recoveringStatement depth)
    (unroll recoveringStatement depth') :=
  .unroll (fun _ _ agree => agree_recoveringStatement agree) depth depth'

theorem agree_statement : setting.Agree Eq statement statement :=
  .recursive fun _ _ agree => agree_recoveringStatement agree

theorem agree_programRound : setting.Agree (Rounds Eq Eq) programRound programRound := by
  refine agree_flushComments.same fun _ => agree_isAtEnd.same fun isEnded => ?_
  split
  · exact .pure (.done rfl)
  · exact agree_statement.same fun _ => .pure (.again rfl)

end Setting

end Parser

end IncrementalFrontend
