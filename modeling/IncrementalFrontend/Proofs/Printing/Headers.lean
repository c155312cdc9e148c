import IncrementalFrontend.Proofs.Parser.Statements
import IncrementalFrontend.Proofs.Printing.Expressions

/-!
The parts of declarations are read as they are written. What may be absent is told by the token that
comes next, so each part asks what the text behind it begins with.
-/
namespace IncrementalFrontend

open Program

namespace Parser

variable {α β : Type} {source : Source} {parser : Parser α} {rest : List Piece} {builder : Builder}
  {last : β → List Piece → Builder → Prop} {kinds : List TokenKind}

theorem gives_marked {word : Keyword} {isThere : Bool} {next : Bool → Parser β}
    (begins : Begins kinds rest) (apart : .keyword word ∉ kinds)
    (further : Gives source (next isThere) rest builder last) :
    Gives source (eatKeyword word >>= next) (written (marked word isThere) ++ rest) builder last := by
  cases isThere with
  | false => exact .eatNot (begins.ne apart) further
  | true => exact .eat TokenKind.noConfusion further

theorem gives_visibility {shown : Visibility} {next : Visibility → Parser β}
    (apart : firstKind rest ≠ .keyword .kwPublic ∧ firstKind rest ≠ .keyword .kwPrivate)
    (further : Gives source (next shown) rest builder last) :
    Gives source (visibility >>= next) (written (visibilityTokens shown) ++ rest) builder last := by
  rw [visibility, bind_assoc]
  cases shown with
  | unmarked =>
    refine .eatNot (apart.1) ?_
    simp only [Bool.false_eq_true, if_false, bind_assoc]
    exact .eatNot apart.2 further
  | publicly => exact .eat TokenKind.noConfusion further
  | privately =>
    refine .eatNot (by simp [visibilityTokens]) ?_
    simp only [Bool.false_eq_true, if_false, bind_assoc]
    exact .eat TokenKind.noConfusion further

theorem gives_functionKind {shape : FunctionKind} {next : FunctionKind → Parser β}
    (further : Gives source (next shape) rest builder last) :
    Gives source (functionKind >>= next) (written (functionKindTokens shape) ++ rest) builder last := by
  rw [functionKind, bind_assoc]
  cases shape with
  | procedure => exact .eat TokenKind.noConfusion further
  | iterator =>
    refine .eatNot (by simp [functionKindTokens]) ?_
    simp only [Bool.false_eq_true, if_false, bind_assoc]
    exact .eat TokenKind.noConfusion further

/-- The intent of a formal stands before its name. -/
theorem gives_intent {taken : Intent} {name : Name} {next : Intent → Parser β}
    (further : Gives source (next taken) (.token (.identifier name) :: rest) builder last) :
    Gives source (intent >>= next)
      (written (intentTokens taken) ++ .token (.identifier name) :: rest) builder last := by
  rw [intent, bind_assoc]
  refine .peekKind ?_
  cases taken with
  | unmarked => exact further
  | constant =>
    simp only [intentTokens, written_cons, List.cons_append, firstKind_token, bind_assoc]
    refine .advance TokenKind.noConfusion fun _ _ => .eatNot (by simp) ?_
    exact further
  | constantReference =>
    simp only [intentTokens, written_cons, List.cons_append, firstKind_token, bind_assoc]
    refine .advance TokenKind.noConfusion fun _ _ => .eat TokenKind.noConfusion ?_
    exact further
  | _ =>
    simp only [intentTokens, written_cons, List.cons_append, firstKind_token, bind_assoc]
    exact .advance TokenKind.noConfusion fun _ _ => further

def returnFollows : List TokenKind :=
  .symbol .colon :: .keyword .kwThrows :: .keyword .kwWhere :: bodyMarks

theorem gives_returnIntent {handed : ReturnIntent} {next : ReturnIntent → Parser β}
    (begins : Begins returnFollows rest) (further : Gives source (next handed) rest builder last) :
    Gives source (returnIntent >>= next) (written (returnIntentTokens handed) ++ rest) builder last := by
  rw [returnIntent, bind_assoc]
  refine .peekKind ?_
  cases handed with
  | unmarked =>
    obtain ⟨kind, member, tail, rfl⟩ := begins
    simp only [returnFollows, bodyMarks, List.mem_cons, List.not_mem_nil, or_false] at member
    rcases member with rfl | rfl | rfl | rfl | rfl <;> exact further
  | constant =>
    simp only [returnIntentTokens, written_cons, List.cons_append, firstKind_token, bind_assoc]
    refine .advance TokenKind.noConfusion fun _ _ => .eatNot (begins.ne (by decide)) ?_
    exact further
  | constantReference =>
    simp only [returnIntentTokens, written_cons, List.cons_append, firstKind_token, bind_assoc]
    refine .advance TokenKind.noConfusion fun _ _ => .eat TokenKind.noConfusion ?_
    exact further
  | _ =>
    simp only [returnIntentTokens, written_cons, List.cons_append, firstKind_token, bind_assoc]
    exact .advance TokenKind.noConfusion fun _ _ => further

theorem gives_variableKind {shape : VariableKind} {next : VariableKind → Parser β}
    (further : Gives source (next shape) rest builder last) :
    Gives source (variableKind >>= next) (.token (variableKindToken shape) :: rest) builder last := by
  rw [variableKind, bind_assoc]
  cases shape <;>
    exact .advance TokenKind.noConfusion fun token kind => by rw [kind]; exact further

/-- What may follow behind a token that leads to it. -/
theorem makes_led {mark : Symbol} {parser : Parser NodeId} {level : Nat} {value : Option Expression}
    (reads : ReadsExpressions source parser level) (apart : firstKind rest ≠ .symbol mark)
    (stops : goesOn level (firstKind rest) = false) :
    Makes source (afterSymbol mark parser) (led (.symbol mark) level value) rest
      fun id tree => Option.Rel (Expression.IsAt tree) value id := by
  intro builder
  cases value with
  | none => exact .eatNot apart (.pure ⟨rfl, .refl builder, fun _ _ => .none⟩)
  | some expression =>
    refine .eat TokenKind.noConfusion ?_
    refine (reads expression rest stops).bind fun id after grows ensures => ?_
    exact .pure ⟨rfl, grows, ensures.imp fun tree => .some⟩

/-- A type may follow behind a colon. -/
theorem makes_typed {type : Option Expression} (begins : Begins kinds rest)
    (apart : .symbol .colon ∉ kinds) (stops : ∀ kind ∈ kinds, goesOn 8 kind = false) :
    Makes source (afterSymbol .colon typeExpression) (typed type) rest
      fun id tree => Option.Rel (Expression.IsAt tree) type id :=
  makes_led reads_typeExpression (begins.ne apart) (begins.stops stops)

/-- A value may follow behind a sign of equality. -/
theorem makes_initialized {init : Option Expression} (stops : goesOn 0 (firstKind rest) = false) :
    Makes source (afterSymbol .equal expression) (initialized init) rest
      fun id tree => Option.Rel (Expression.IsAt tree) init id :=
  have apart : firstKind rest ≠ .symbol Operator.assign.symbol :=
    ne_symbol_of_stops rfl (Nat.le_refl 0) stops
  makes_led reads_expression apart stops

theorem gives_condition {condition : Option Expression} {next : Option NodeId → Parser β}
    (begins : Begins kinds rest) (apart : .keyword .kwWhere ∉ kinds)
    (stops : ∀ kind ∈ kinds, goesOn 0 kind = false)
    (further : ∀ id after, builder.Grows [] after →
      after.Ensures (fun tree => Option.Rel (Expression.IsAt tree) condition id) →
      Gives source (next id) rest after last) :
    Gives source (do
        let condition ← if ← eatKeyword .kwWhere then some <$> expression else pure none
        next condition)
      (written (led (.keyword .kwWhere) 0 condition) ++ rest) builder last := by
  cases condition with
  | none => exact .eatNot (begins.ne apart) (further none builder (.refl builder) fun _ _ => .none)
  | some value =>
    refine .eat TokenKind.noConfusion ?_
    simp only [if_true, map_eq_pure_bind, bind_assoc, pure_bind]
    refine (reads_expression value rest (begins.stops stops)).bind fun id after grows ensures => ?_
    exact further (some id) after grows (ensures.imp fun tree => .some)

theorem makes_formal (part : Formal) (begins : Begins listFollows rest) :
    Makes source formal part.tokens rest fun id tree => part.IsAt tree id := by
  intro builder
  have shape : written part.tokens ++ rest = written (intentTokens part.intent) ++
      .token (.identifier part.name) ::
        (written (typed part.type) ++ (written (initialized part.init) ++ rest)) := by
    simp [Formal.tokens]
  rw [shape]
  refine .currentSpan fun start => gives_intent (.expectIdentifier ?_)
  refine (makes_typed begins.led (by decide) (by decide)).bind fun type mid grows ensures => ?_
  refine (makes_initialized (begins.stops (by decide))).bind fun init after grows' ensures' => ?_
  refine .of_bind_pure (.store fun id last grows'' stored => .pure
    ⟨rfl, grows.trans (grows'.trans grows''), ?_⟩)
  exact (ensures.join (grows'.trans grows'') (ensures'.join grows'' stored)).imp fun tree holds =>
    ⟨type, init, holds.2.2, holds.1, holds.2.1⟩

theorem makes_formals (parts : List Formal) (name : Name) :
    Makes source (whileParsing "function" name formals)
      (.symbol .parenOpen :: (separated (parts.map Formal.tokens) ++ [.symbol .parenClose])) rest
      fun ids tree => List.Forall₂ (Formal.IsAt tree) parts ids := by
  intro builder
  have starts (part : Formal) :
      ∃ kind tail, part.tokens = kind :: tail ∧ kind ≠ .symbol .parenClose := by
    rw [Formal.tokens]
    cases part.intent <;> exact ⟨_, _, rfl, TokenKind.noConfusion⟩
  refine .whileParsing (.expect TokenKind.noConfusion fun _ => ?_)
  exact gives_listUntil starts (fun part rest begins => makes_formal part begins) parts builder

theorem begins_functionKind (kind : FunctionKind) :
    Begins [.keyword .kwProc, .keyword .kwIter] (written (functionKindTokens kind) ++ rest) := by
  cases kind <;> exact .token (by decide)

/-- The tokens behind the linkage of a function begin with one of a few keywords. -/
theorem begins_signature (header : Header) :
    Begins signatureMarks (written header.signature ++ rest) := by
  simp only [Header.signature, written_append, List.append_assoc]
  exact .marked (.marked (begins_functionKind _))

theorem gives_linkage {linked : Linkage} {next : Linkage → Parser β}
    (begins : linked = .internal → Begins signatureMarks rest)
    (further : Gives source (next linked) rest builder last) :
    Gives source (linkage >>= next) (written (linkageTokens linked) ++ rest) builder last := by
  rw [linkage, bind_assoc]
  cases linked with
  | internal =>
    refine .eatNot ((begins rfl).ne (by decide)) ?_
    simp only [Bool.false_eq_true, if_false, bind_assoc]
    exact .eatNot ((begins rfl).ne (by decide)) further
  | external => exact .eat TokenKind.noConfusion further
  | exported =>
    refine .eatNot (by simp [linkageTokens]) ?_
    simp only [Bool.false_eq_true, if_false, bind_assoc]
    exact .eat TokenKind.noConfusion further

theorem gives_linkageName {linked : Linkage} {name : Option Name} {next : Option NodeId → Parser β}
    (isLinked : linked = .internal → name = none) (begins : Begins signatureMarks rest)
    (further : ∀ id after, builder.Grows [] after → after.Ensures (fun tree =>
        Option.Rel (fun text id => tree.node? id = some (.string text)) name id) →
      Gives source (next id) rest after last) :
    Gives source (linkageName linked >>= next) (written (name.toList.map .string) ++ rest)
      builder last := by
  rw [linkageName, bind_assoc]
  refine .peekKind ?_
  cases name with
  | none =>
    have absent : Gives source (next none) rest builder last :=
      further none builder (.refl builder) fun _ _ => .none
    obtain ⟨kind, member, tail, rfl⟩ := begins
    simp only [signatureMarks, List.map_cons, List.map_nil, List.mem_cons, List.not_mem_nil, or_false]
      at member
    rcases member with rfl | rfl | rfl | rfl <;> exact absent
  | some content =>
    have named : linked ≠ .internal := fun internal => Option.some_ne_none _ (isLinked internal)
    simp only [Option.toList_some, List.map_cons, List.map_nil, written_cons, written_nil, List.cons_append,
      List.nil_append, firstKind_token, named, if_false, bind_assoc]
    refine gives_string fun id after grows ensures => ?_
    exact further (some id) after grows (ensures.imp fun tree stored => .some stored)

theorem functionEnd_own {start : Span} {linkage : Linkage} {name : Name}
    {declaration : Option (List NodeId) → Node} {body : Option (List NodeId)}
    (own : (linkage = .external && body.isSome) = false) :
    functionEnd start linkage name declaration body = add (declaration body) start := by
  rw [functionEnd, own]
  rfl

def GivesBody (source : Source) (header : Header) (statement : Parser Unit) (start : Span)
    (rest : List Piece) (builder : Builder) (last : Unit → List Piece → Builder → Prop) : Prop :=
  ∀ (declared : Option (List NodeId) → Function) (after : Builder),
    (∀ body, (declared body).body = body) → builder.Grows [] after →
    (∀ body, after.Ensures (header.IsOf · (declared body))) →
    Gives source (do
      discardComments
      let body ← functionBody statement
      functionEnd start header.linkage header.name (fun body => .functionDecl (declared body)) body)
      rest after last

/-- The parts of a header in order. What comes behind them is up to the body. -/
theorem gives_functionRest (header : Header) {statement : Parser Unit} {start : Span}
    {linkageName : Option NodeId} {last : Unit → List Piece → Builder → Prop}
    (begins : Begins bodyMarks rest)
    (linked : builder.Ensures fun tree =>
      Option.Rel (fun text id => tree.node? id = some (.string text)) header.linkageName linkageName)
    (further : GivesBody source header statement start rest builder last) :
    Gives source (functionRest statement header.visibility start header.linkage linkageName)
      (written header.signature ++ rest) builder last := by
  have shape : written header.signature ++ rest = written (marked .kwInline header.isInline) ++
      (written (marked .kwOverride header.isOverride) ++ (written (functionKindTokens header.kind) ++
        .token (.identifier header.name) :: (written (.symbol .parenOpen ::
          (separated (header.formals.map Formal.tokens) ++ [.symbol .parenClose])) ++
          (written (returnIntentTokens header.returnIntent) ++ (written (typed header.returnType) ++
            (written (marked .kwThrows header.doesThrow) ++
              (written (led (.keyword .kwWhere) 0 header.condition) ++ rest))))))) := by
    simp [Header.signature]
  rw [shape, functionRest]
  refine gives_marked (begins_functionKind _).marked (by decide) ?_
  refine gives_marked (begins_functionKind _) (by decide) (gives_functionKind (.expectIdentifier ?_))
  refine (makes_formals header.formals header.name).bind fun formals first grows formalsAt => ?_
  refine gives_returnIntent begins.led.marked.led ?_
  refine (makes_typed begins.led.marked (by decide) (by decide)).bind
    fun returnType second grows' typeAt => ?_
  refine gives_marked begins.led (by decide) ?_
  refine gives_condition begins (by decide) (by decide) fun condition third grows'' conditionAt => ?_
  refine further _ third (fun _ => rfl) (grows.trans (grows'.trans grows'')) fun body => ?_
  have parts := (linked.join grows formalsAt).join (grows'.trans grows'') (typeAt.join grows'' conditionAt)
  refine parts.imp fun tree holds => ?_
  obtain ⟨⟨named, taken⟩, typed, met⟩ := holds
  exact ⟨rfl, rfl, rfl, named, rfl, rfl, rfl, rfl, rfl, taken, typed, met⟩

/-- A function up to its body. -/
theorem gives_function (header : Header) {statement : Parser Unit} {start : Span}
    {last : Unit → List Piece → Builder → Prop} (begins : Begins bodyMarks rest)
    (further : GivesBody source header statement start rest builder last) :
    Gives source (functionDeclaration statement header.visibility start)
      (written (linkageTokens header.linkage) ++ (written (header.linkageName.toList.map .string) ++
        (written header.signature ++ rest))) builder last := by
  rw [functionDeclaration_eq]
  refine gives_linkage (fun internal => ?_) ?_
  · rw [header.isLinked internal]
    exact begins_signature header
  · refine gives_linkageName header.isLinked (begins_signature header) fun id mid grows linked => ?_
    refine gives_functionRest header begins linked fun declared after bodied grows' ensures => ?_
    exact further declared after bodied (grows.trans grows') ensures

theorem begins_function (header : Header) (rest : List Piece) :
    Begins functionMarks (written (linkageTokens header.linkage) ++
      (written (header.linkageName.toList.map .string) ++ (written header.signature ++ rest))) := by
  cases linked : header.linkage with
  | internal =>
    rw [header.isLinked linked]
    exact (begins_signature header).mono (by decide)
  | _ => exact .token (by decide)

end Parser

end IncrementalFrontend
