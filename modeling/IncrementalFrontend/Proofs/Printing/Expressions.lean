import IncrementalFrontend.Proofs.Parser.Expressions
import IncrementalFrontend.Proofs.Printing.Reading

/-!
Expressions are read as they are written. Each level reads what is written for its place, up to a
token that does not go on with it.
-/
namespace IncrementalFrontend

open Program

namespace Program

@[simp] theorem written_nil : written [] = [] :=
  rfl

@[simp] theorem written_cons (kind : TokenKind) (tokens : List TokenKind) :
    written (kind :: tokens) = .token kind :: written tokens :=
  rfl

@[simp] theorem written_append (tokens more : List TokenKind) :
    written (tokens ++ more) = written tokens ++ written more :=
  List.map_append

@[simp] theorem firstKind_token (kind : TokenKind) (rest : List Piece) :
    firstKind (.token kind :: rest) = kind :=
  rfl

def binaryOperators : List Operator :=
  .assign :: Operator.binaryLevels.flatten

def goesOn (level : Nat) (kind : TokenKind) : Bool :=
  kind = .symbol .parenOpen || kind = .symbol .dot ||
    binaryOperators.any fun operator => level ≤ operator.level && kind = .symbol operator.symbol

theorem goesOn_mono {level tighter : Nat} (le : level ≤ tighter) {kind : TokenKind}
    (stops : goesOn level kind = false) : goesOn tighter kind = false := by
  simp only [goesOn, Bool.or_eq_false_iff, List.any_eq_false] at stops ⊢
  refine ⟨stops.1, fun operator member => ?_⟩
  have apart := stops.2 operator member
  simp only [Bool.and_eq_true, decide_eq_true_eq, not_and] at apart ⊢
  exact fun inside => apart (le.trans inside)

/-- An operator does not go on with what binds tighter. -/
theorem goesOn_symbol (operator : Operator) :
    goesOn (operator.level + 1) (.symbol operator.symbol) = false := by
  cases operator <;> rfl

theorem ne_symbol_of_stops {operator : Operator} (isBinary : operator.isUnary = false) {level : Nat}
    (le : level ≤ operator.level) {kind : TokenKind} (stops : goesOn level kind = false) :
    kind ≠ .symbol operator.symbol := by
  rintro rfl
  have member : operator ∈ binaryOperators := by
    cases operator <;> first | decide | cases isBinary
  exact List.any_eq_false.mp (Bool.or_eq_false_iff.mp stops).2 operator member (by simp [le])

/-- Operators with the same number of operands are written differently. -/
theorem symbol_injective {operator other : Operator} (arity : operator.isUnary = other.isUnary)
    (same : operator.symbol = other.symbol) : operator = other := by
  cases operator <;> cases other <;> first | rfl | exact absurd arity (by decide) | exact nomatch same

theorem operatorAmong?_symbol {operators : List Operator} {operator : Operator}
    (member : operator ∈ operators)
    (arity : ∀ other ∈ operators, other.isUnary = operator.isUnary) :
    (TokenKind.symbol operator.symbol).operatorAmong? operators = some operator := by
  cases found : (TokenKind.symbol operator.symbol).operatorAmong? operators with
  | none => exact absurd (beq_self_eq_true _) (List.find?_eq_none.mp found operator member)
  | some other =>
    have inside : other ∈ operators := List.mem_of_find?_eq_some found
    have same : operator.symbol = other.symbol := by
      unfold TokenKind.operatorAmong? at found
      simpa using List.find?_some found
    rw [symbol_injective (arity other inside) same.symm]

theorem operatorAmong?_eq_none {operators : List Operator} {kind : TokenKind}
    (absent : kind ∉ Parser.operatorMarks operators) : kind.operatorAmong? operators = none := by
  refine List.find?_eq_none.mpr fun operator member here => absent ?_
  exact List.mem_map.mpr ⟨operator, member, (beq_iff_eq.mp here).symm⟩

theorem ne_of_stops {level : Nat} {kind : TokenKind} (stops : goesOn level kind = false) :
    kind ≠ .symbol .parenOpen ∧ kind ≠ .symbol .dot := by
  simpa [goesOn, and_assoc] using (Bool.or_eq_false_iff.mp stops).1

theorem level_lt (operator : Operator) : operator.level < 8 := by
  cases operator <;> decide

theorem Begins.stops {kinds : List TokenKind} {pieces : List Piece} (begins : Begins kinds pieces)
    {level : Nat} (ends : ∀ kind ∈ kinds, goesOn level kind = false) :
    goesOn level (firstKind pieces) = false :=
  ends _ begins.firstKind_mem

/-- The first token of an expression begins a primary expression, or is a sign where one may stand. -/
theorem Expression.tokens_eq_cons : ∀ (expression : Expression) (level : Nat),
    ∃ kind rest, expression.tokens level = kind :: rest ∧ Parser.startsExpression kind ∧
      (level = 8 → Parser.startsPrimary kind)
  | .identifier name, _ => ⟨.identifier name, [], rfl, rfl, fun _ => rfl⟩
  | .integer value, _ => ⟨.integer value, [], rfl, rfl, fun _ => rfl⟩
  | .string content, _ => ⟨.string content, [], rfl, rfl, fun _ => rfl⟩
  | .call callee actuals, level => by
    obtain ⟨kind, rest, same, starts, primary⟩ := callee.tokens_eq_cons 8
    exact ⟨kind, _, by rw [Expression.tokens, same]; rfl, starts, fun _ => primary rfl⟩
  | .field receiver name, level => by
    obtain ⟨kind, rest, same, starts, primary⟩ := receiver.tokens_eq_cons 8
    exact ⟨kind, _, by rw [Expression.tokens, same]; rfl, starts, fun _ => primary rfl⟩
  | .unary operator isUnary operand, level => by
    rw [Expression.tokens, grouped]
    split
    · exact ⟨_, _, rfl, rfl, fun _ => rfl⟩
    · refine ⟨_, _, rfl, ?_, fun tight => absurd (level_lt operator) (by simp_all)⟩
      cases operator <;> first | rfl | cases isUnary
  | .binary operator isBinary left right, level => by
    obtain ⟨kind, rest, same, starts, -⟩ := left.tokens_eq_cons operator.operandLevels.1
    rw [Expression.tokens, grouped]
    split
    · exact ⟨_, _, rfl, rfl, fun _ => rfl⟩
    · exact ⟨kind, _, by rw [same]; rfl, starts, fun tight => absurd (level_lt operator) (by simp_all)⟩

def Expression.level : Expression → Nat
  | .unary operator .. | .binary operator .. => operator.level
  | _ => 8

/-- Induction along the operands that an expression of some level begins with, its sign apart. -/
theorem Expression.level_induction {motive : Expression → Prop} (level : Nat) (loose : level < 8)
    (unary : ∀ operator isUnary operand, operator.level = level → motive operand →
      motive (.unary operator isUnary operand))
    (binary : ∀ operator isBinary left right, operator.level = level → motive left →
      motive (.binary operator isBinary left right))
    (other : ∀ expression : Expression, expression.level ≠ level → motive expression) :
    ∀ expression, motive expression
  | .unary operator isUnary operand => by
    by_cases here : operator.level = level
    · exact unary _ _ _ here (operand.level_induction level loose unary binary other)
    · exact other _ here
  | .binary operator isBinary left right => by
    by_cases here : operator.level = level
    · exact binary _ _ _ _ here (left.level_induction level loose unary binary other)
    · exact other _ here
  | .identifier _ | .integer _ | .string _ | .call .. | .field .. => other _ loose.ne'

theorem level_eq_seven {operator : Operator} : operator.level = 7 ↔ operator.isUnary = true := by
  cases operator <;> decide

theorem decide_level_lt_succ {operator : Operator} {level : Nat} (other : operator.level ≠ level) :
    decide (operator.level < level) = decide (operator.level < level + 1) := by
  rw [decide_eq_decide]
  omega

/-- Where no operator of the level is outermost, the expression is written as in the place of the next
level. -/
theorem Expression.tokens_succ {expression : Expression} {level : Nat}
    (other : expression.level ≠ level) :
    expression.tokens level = expression.tokens (level + 1) := by
  cases expression with
  | unary operator isUnary operand =>
    rw [Expression.tokens, Expression.tokens, decide_level_lt_succ other]
  | binary operator isBinary left right =>
    rw [Expression.tokens, Expression.tokens, decide_level_lt_succ other]
  | _ => simp only [Expression.tokens]

/-- An operator next to a call or a field access is written in parentheses. -/
theorem Expression.tokens_eq_grouped {expression : Expression} (outermost : expression.level ≠ 8) :
    expression.tokens 8 = .symbol .parenOpen :: (expression.tokens 0 ++ [.symbol .parenClose]) := by
  cases expression with
  | unary operator isUnary operand => simp [Expression.tokens, grouped, level_lt operator]
  | binary operator isBinary left right => simp [Expression.tokens, grouped, level_lt operator]
  | _ => exact absurd rfl outermost

theorem Expression.each_eq_map (expressions : List Expression) :
    Expression.each expressions = expressions.map (·.tokens 0) := by
  induction expressions with
  | nil => rfl
  | cons expression rest ih => rw [Expression.each, ih, List.map_cons]

theorem Expression.areAt_of_forall₂ {tree : SyntaxTree} {expressions : List Expression}
    {ids : List NodeId} (pairs : List.Forall₂ (Expression.IsAt tree) expressions ids) :
    Expression.AreAt tree expressions ids := by
  induction pairs with
  | nil => rfl
  | cons first others ih => exact ⟨_, _, rfl, first, ih⟩

end Program

namespace Parser

variable {α β : Type} {source : Source} {parser : Parser α} {rest : List Piece} {builder : Builder}

/-- The parser reads the tokens, attaches nothing, and builds nodes that make something true of what
it returns. -/
def Makes (source : Source) (parser : Parser α) (text : List TokenKind) (rest : List Piece)
    (fact : α → SyntaxTree → Prop) : Prop :=
  ∀ builder, Gives source parser (written text ++ rest) builder fun result left after =>
    left = rest ∧ builder.Grows [] after ∧ after.Ensures (fact result)

theorem Makes.bind {text : List TokenKind} {fact : α → SyntaxTree → Prop} {next : α → Parser β}
    {last : β → List Piece → Builder → Prop} (makes : Makes source parser text rest fact)
    (further : ∀ result after, builder.Grows [] after → after.Ensures (fact result) →
      Gives source (next result) rest after last) :
    Gives source (parser >>= next) (written text ++ rest) builder last := by
  refine .bind ((makes builder).mono ?_)
  rintro result left after ⟨rfl, grows, ensures⟩
  exact further result after grows ensures

def ReadsExpressions (source : Source) (parser : Parser NodeId) (level : Nat) : Prop :=
  ∀ (expression : Expression) (rest : List Piece), goesOn level (firstKind rest) = false →
    Makes source parser (expression.tokens level) rest fun id tree => expression.IsAt tree id

def listFollows : List TokenKind :=
  [.symbol .comma, .symbol .parenClose]

def listRound (item : Parser NodeId) (items : List NodeId) :
    Parser (Round (List NodeId) (List NodeId)) := do
  if ← eatSymbol .parenClose then
    return .done items
  let items := items ++ [← item]
  if ← eatSymbol .comma then
    return .again items
  let _ ← expectSymbol .parenClose
  return .done items

section

variable {ξ : Type} {item : Parser NodeId} {text : ξ → List TokenKind}
  {fact : ξ → NodeId → SyntaxTree → Prop}

/-- By induction on the items that are still to be read. -/
theorem gives_listRounds
    (starts : ∀ x, ∃ kind tail, text x = kind :: tail ∧ kind ≠ .symbol .parenClose)
    (reads : ∀ x rest, Begins listFollows rest → Makes source item (text x) rest (fact x))
    (items : List ξ) (count : Nat) (done : List NodeId) (builder : Builder) :
    Gives source (rounds (listRound item) count done)
      (written (separated (items.map text)) ++ .token (.symbol .parenClose) :: rest) builder
      fun ids left after => left = rest ∧ builder.Grows [] after ∧ ∃ new, ids = done ++ new ∧
        after.Ensures fun tree => List.Forall₂ (fun x id => fact x id tree) items new := by
  induction items generalizing count done builder with
  | nil =>
    cases count with
    | zero => exact .exhausted
    | succ count =>
      rw [rounds, listRound, bind_assoc]
      refine .eat TokenKind.noConfusion (.pure ⟨rfl, .refl builder, [], ?_, fun _ _ => .nil⟩)
      rw [List.append_nil]
  | cons x more ih =>
    cases count with
    | zero => exact .exhausted
    | succ count =>
      obtain ⟨kind, tail, shape, inside⟩ := starts x
      rw [rounds, listRound, bind_assoc]
      cases more with
      | nil =>
        refine .eatNot (by simpa [separated, shape] using inside) ?_
        simp only [Bool.false_eq_true, if_false, bind_assoc]
        refine (reads x _ (.token (by decide))).bind fun id after grows ensures => ?_
        refine .eatNot (by simp) ?_
        simp only [Bool.false_eq_true, if_false, bind_assoc]
        refine .expect TokenKind.noConfusion fun _ => .pure ⟨rfl, grows, [id], rfl, ?_⟩
        exact ensures.imp fun tree holds => .cons holds .nil
      | cons y more =>
        refine .eatNot (by simpa [separated, shape] using inside) ?_
        simp only [Bool.false_eq_true, if_false, bind_assoc]
        have split : written (separated ((x :: y :: more).map text)) ++
              .token (.symbol .parenClose) :: rest =
            written (text x) ++ .token (.symbol .comma) ::
              (written (separated ((y :: more).map text)) ++ .token (.symbol .parenClose) :: rest) := by
          simp [separated]
        rw [split]
        refine (reads x _ (.token (by decide))).bind fun id after grows ensures => ?_
        refine .eat TokenKind.noConfusion ?_
        simp only [if_true, pure_bind]
        refine (ih count (done ++ [id]) after).mono ?_
        rintro ids left last ⟨rfl, grows', new, rfl, ensures'⟩
        refine ⟨rfl, grows.trans grows', id :: new, ?_, ?_⟩
        · rw [List.append_assoc, List.singleton_append]
        · exact ((ensures.grows grows').and ensures').imp fun tree holds => .cons holds.1 holds.2

theorem gives_listUntil
    (starts : ∀ x, ∃ kind tail, text x = kind :: tail ∧ kind ≠ .symbol .parenClose)
    (reads : ∀ x rest, Begins listFollows rest → Makes source item (text x) rest (fact x))
    (items : List ξ) :
    Makes source (listUntil .parenClose item)
      (separated (items.map text) ++ [.symbol .parenClose]) rest
      fun ids tree => List.Forall₂ (fun x id => fact x id tree) items ids := by
  intro builder
  rw [written_append, List.append_assoc]
  refine .loop fun count => (gives_listRounds starts reads items count [] builder).mono ?_
  rintro ids left after ⟨rfl, grows, new, rfl, ensures⟩
  exact ⟨rfl, grows, ensures⟩

end

section

variable {expression : Parser NodeId} {last : NodeId → List Piece → Builder → Prop} {count : Nat}

theorem gives_leaf {kind : TokenKind} {node : Node} {next : NodeId → Parser β} {span : Span}
    {last : β → List Piece → Builder → Prop} (inside : kind ≠ .endOfFile)
    (further : ∀ id after, builder.Grows [] after → after.Ensures (·.node? id = some node) →
      Gives source (next id) rest after last) :
    Gives source ((do
        let _ ← advance
        let location ← locate span
        build (·.store node location)) >>= next) (.token kind :: rest) builder last := by
  simp only [bind_assoc]
  refine .advance inside fun _ _ => .locate fun location => .build ?_
  exact further _ _ (builder.grows_store node location) (builder.ensures_store node location)

theorem gives_string {content : Name} {next : NodeId → Parser β}
    {last : β → List Piece → Builder → Prop}
    (further : ∀ id after, builder.Grows [] after →
      after.Ensures (·.node? id = some (.string content)) → Gives source (next id) rest after last) :
    Gives source (primary expression >>= next) (.token (.string content) :: rest) builder last := by
  rw [primary, bind_assoc]
  refine .current fun token kind => ?_
  have kind : token.kind = .string content := kind
  simp only [kind]
  exact gives_leaf TokenKind.noConfusion further

theorem gives_parentheses (reads : ReadsExpressions source expression 0) (inner : Expression)
    {next : NodeId → Parser NodeId}
    (further : ∀ id after, builder.Grows [] after → after.Ensures (inner.IsAt · id) →
      Gives source (next id) rest after last) :
    Gives source (primary expression >>= next)
      (.token (.symbol .parenOpen) :: (written (inner.tokens 0) ++ .token (.symbol .parenClose) :: rest))
      builder last := by
  rw [primary, bind_assoc]
  refine .current fun token kind => ?_
  have kind : token.kind = .symbol .parenOpen := kind
  simp only [kind, bind_assoc]
  refine .advance TokenKind.noConfusion fun _ _ => ?_
  refine (reads inner _ rfl).bind fun id after grows ensures => ?_
  exact .expect TokenKind.noConfusion fun _ => further id after grows ensures

/-- One suffix is read in one round: the actuals of a call. -/
theorem gives_callRound (reads : ReadsExpressions source expression 0) (start : Span)
    {callee : Expression} {id : NodeId} (ensures : builder.Ensures (callee.IsAt · id))
    (actuals : List Expression)
    (further : ∀ count id after, builder.Grows [] after →
      after.Ensures ((Expression.call callee actuals).IsAt · id) →
      Gives source (rounds (suffixRound expression start) count id) rest after last) :
    Gives source (rounds (suffixRound expression start) count id)
      (written (.symbol .parenOpen ::
        (separated (Expression.each actuals) ++ [.symbol .parenClose])) ++ rest) builder last := by
  rw [Expression.each_eq_map]
  cases count with
  | zero => exact .exhausted
  | succ count =>
    rw [rounds, suffixRound, bind_assoc]
    refine .eat TokenKind.noConfusion ?_
    simp only [if_true, bind_assoc]
    have starts (actual : Expression) : ∃ kind tail, actual.tokens 0 = kind :: tail ∧
        kind ≠ .symbol .parenClose := by
      obtain ⟨kind, tail, same, starts, -⟩ := actual.tokens_eq_cons 0
      exact ⟨kind, tail, same, by rintro rfl; cases starts⟩
    have items (actual : Expression) (rest : List Piece) (begins : Begins listFollows rest) :
        Makes source expression (actual.tokens 0) rest fun id tree => actual.IsAt tree id :=
      reads actual rest (begins.stops (by decide))
    refine (gives_listUntil starts items actuals).bind fun ids mid grows ensures' => ?_
    refine .store fun new last grows' stored => further count new last (grows.trans grows') ?_
    exact (ensures.join (grows.trans grows') (ensures'.join grows' stored)).imp fun tree holds =>
      ⟨id, ids, holds.2.2, holds.1, Expression.areAt_of_forall₂ holds.2.1⟩

/-- Or the name of a field. -/
theorem gives_fieldRound (start : Span) {receiver : Expression} {id : NodeId}
    (ensures : builder.Ensures (receiver.IsAt · id)) (name : Name)
    (further : ∀ count id after, builder.Grows [] after →
      after.Ensures ((Expression.field receiver name).IsAt · id) →
      Gives source (rounds (suffixRound expression start) count id) rest after last) :
    Gives source (rounds (suffixRound expression start) count id)
      (written [.symbol .dot, .identifier name] ++ rest) builder last := by
  cases count with
  | zero => exact .exhausted
  | succ count =>
    rw [rounds, suffixRound, bind_assoc]
    refine .eatNot (by simp) ?_
    simp only [Bool.false_eq_true, if_false, bind_assoc]
    refine .eat TokenKind.noConfusion ?_
    simp only [if_true, bind_assoc]
    refine .expectIdentifier (.store fun new last grows stored => further count new last grows ?_)
    exact (ensures.join grows stored).imp fun tree holds => ⟨id, holds.2, holds.1⟩

/-- What is primary is read first, then one suffix after the other. By induction on what the suffixes
are attached to; what comes behind the expression may be a suffix, too. -/
theorem gives_suffixes (reads : ReadsExpressions source expression 0) (start : Span) :
    ∀ (whole : Expression) (rest : List Piece) (count : Nat),
    (∀ count id after, builder.Grows [] after → after.Ensures (whole.IsAt · id) →
      Gives source (rounds (suffixRound expression start) count id) rest after last) →
    Gives source (primary expression >>= rounds (suffixRound expression start) count)
      (written (whole.tokens 8) ++ rest) builder last
  | .identifier name, rest, count, further => by
    rw [Expression.tokens, primary, bind_assoc]
    refine .current fun token kind => ?_
    have kind : token.kind = .identifier name := kind
    simp only [kind]
    exact gives_leaf TokenKind.noConfusion fun id after => further count id after
  | .integer value, rest, count, further => by
    rw [Expression.tokens, primary, bind_assoc]
    refine .current fun token kind => ?_
    have kind : token.kind = .integer value := kind
    simp only [kind]
    exact gives_leaf TokenKind.noConfusion fun id after => further count id after
  | .string content, rest, count, further => by
    rw [Expression.tokens]
    exact gives_string fun id after => further count id after
  | .call callee actuals, rest, count, further => by
    rw [Expression.tokens, written_append, List.append_assoc]
    refine gives_suffixes reads start callee _ count fun count id after grows ensures => ?_
    exact gives_callRound reads start ensures actuals fun count id later grows' =>
      further count id later (grows.trans grows')
  | .field receiver name, rest, count, further => by
    rw [Expression.tokens, written_append, List.append_assoc]
    refine gives_suffixes reads start receiver _ count fun count id after grows ensures => ?_
    exact gives_fieldRound start ensures name fun count id later grows' =>
      further count id later (grows.trans grows')
  | .unary operator isUnary operand, rest, count, further => by
    have outermost : (Expression.unary operator isUnary operand).level ≠ 8 :=
      Nat.ne_of_lt (level_lt operator)
    rw [Expression.tokens_eq_grouped outermost]
    simpa using gives_parentheses reads (.unary operator isUnary operand) (further count)
  | .binary operator isBinary left right, rest, count, further => by
    have outermost : (Expression.binary operator isBinary left right).level ≠ 8 :=
      Nat.ne_of_lt (level_lt operator)
    rw [Expression.tokens_eq_grouped outermost]
    simpa using gives_parentheses reads (.binary operator isBinary left right) (further count)

theorem reads_suffixed (reads : ReadsExpressions source expression 0) :
    ReadsExpressions source (suffixed expression) 8 := by
  intro whole rest stops builder
  refine .currentSpan fun start => .bindLoop fun count => ?_
  refine gives_suffixes reads start whole rest count fun count id after grows ensures => ?_
  cases count with
  | zero => exact .exhausted
  | succ count =>
    obtain ⟨notCalled, notAccessed⟩ := ne_of_stops stops
    rw [rounds, suffixRound, bind_assoc]
    refine .eatNot notCalled ?_
    simp only [Bool.false_eq_true, if_false, bind_assoc]
    refine .eatNot notAccessed ?_
    exact .pure ⟨rfl, grows, ensures⟩

def signRound (signs : List (Operator × Span)) :
    Parser (Round (List (Operator × Span)) (List (Operator × Span))) := do
  match (← kind).operatorAmong? Operator.unary with
  | some operator => return .again ((operator, (← advance).span) :: signs)
  | none => return .done signs

theorem gives_unsigned (reads : ReadsExpressions source (suffixed expression) 8)
    (stops : goesOn 8 (firstKind rest) = false) {whole : Expression} (unsigned : whole.level ≠ 7)
    {signs : List (Operator × Span)}
    (further : ∀ id after, builder.Grows [] after → after.Ensures (whole.IsAt · id) →
      Gives source (applySigns id signs) rest after last) :
    Gives source (do
        let signs ← rounds signRound count signs
        let operand ← suffixed expression
        applySigns operand signs)
      (written (whole.tokens 7) ++ rest) builder last := by
  cases count with
  | zero => exact .bind .exhausted
  | succ count =>
    obtain ⟨kind, tail, same, -, primary⟩ := whole.tokens_eq_cons 8
    -- what is written for the tightest level begins with no sign
    have absent : kind.operatorAmong? Operator.unary = none := by
      refine operatorAmong?_eq_none fun member => ?_
      exact Bool.false_ne_true ((startsPrimary_of_operator _ member).symm.trans (primary rfl))
    rw [whole.tokens_succ unsigned, rounds]
    simp only [signRound, bind_assoc]
    refine .peekKind ?_
    rw [same, written_cons, List.cons_append, firstKind_token, absent]
    simp only [pure_bind]
    have makes := reads whole rest stops
    rw [same] at makes
    exact makes.bind further

/-- The signs wait until their operand is read. By induction on the operand; the operations of the signs
in front of it are done last. -/
theorem gives_signs (reads : ReadsExpressions source (suffixed expression) 8)
    (stops : goesOn 8 (firstKind rest) = false) (whole : Expression) (builder : Builder)
    (count : Nat) (signs : List (Operator × Span))
    (further : ∀ id after, builder.Grows [] after → after.Ensures (whole.IsAt · id) →
      Gives source (applySigns id signs) rest after last) :
    Gives source (do
        let signs ← rounds signRound count signs
        let operand ← suffixed expression
        applySigns operand signs)
      (written (whole.tokens 7) ++ rest) builder last := by
  induction whole using Expression.level_induction 7 (by decide) generalizing count signs last with
  | unary operator isUnary operand tight ih =>
    cases count with
    | zero => exact .bind .exhausted
    | succ count =>
      have shape : (Expression.unary operator isUnary operand).tokens 7 =
          .symbol operator.symbol :: operand.tokens 7 := by
        simp [Expression.tokens, grouped, tight]
      have found : (TokenKind.symbol operator.symbol).operatorAmong? Operator.unary = some operator := by
        cases operator <;> first | rfl | cases isUnary
      rw [shape, rounds]
      simp only [signRound, bind_assoc]
      refine .peekKind ?_
      simp only [written_cons, List.cons_append, firstKind_token, found, bind_assoc, pure_bind]
      refine .advance TokenKind.noConfusion fun token _ => ?_
      refine ih count _ fun id after grows ensures => ?_
      refine .store fun new last grows' stored => further new last (grows.trans grows') ?_
      exact (ensures.join grows' stored).imp fun tree holds => ⟨id, holds.2, holds.1⟩
  | binary operator isBinary left right tight =>
    exact absurd (isBinary.symm.trans (level_eq_seven.mp tight)) Bool.false_ne_true
  | other whole unsigned => exact gives_unsigned reads stops unsigned further

theorem reads_signed (reads : ReadsExpressions source expression 0) :
    ReadsExpressions source (signed expression) 7 := by
  intro whole rest stops builder
  rw [signed_eq]
  refine .loopBind fun count => ?_
  have stops : goesOn 8 (firstKind rest) = false := goesOn_mono (by decide) stops
  exact gives_signs (reads_suffixed reads) stops whole builder count [] fun id after grows ensures =>
    .pure ⟨rfl, grows, ensures⟩

def operatorRound (operators : List Operator) (operand : Parser NodeId) (start : Span) (left : NodeId) :
    Parser (Round NodeId NodeId) := do
  match (← kind).operatorAmong? operators with
  | none => return .done left
  | some operator =>
    let _ ← advance
    let right ← operand
    return .again (← storeOperation operator [left, right] start)

section

variable {operators : List Operator} {operand : Parser NodeId} {level : Nat}

theorem gives_firstOperand (reads : ReadsExpressions source operand (level + 1)) {start : Span}
    (stops : goesOn (level + 1) (firstKind rest) = false) {whole : Expression}
    (other : whole.level ≠ level)
    (further : ∀ count id after, builder.Grows [] after → after.Ensures (whole.IsAt · id) →
      Gives source (rounds (operatorRound operators operand start) count id) rest after last) :
    Gives source (operand >>= rounds (operatorRound operators operand start) count)
      (written (whole.tokens level) ++ rest) builder last := by
  rw [whole.tokens_succ other]
  exact (reads whole rest stops).bind (further count)

/-- The leftmost operand is read first, then one operator after the other. By induction on the left
operand; what comes behind the expression may be an operator of the same level, too. -/
theorem gives_operators (reads : ReadsExpressions source operand (level + 1))
    (exact : ∀ operator : Operator, operator ∈ operators ↔
      operator.isUnary = false ∧ operator.level = level) (inside : 0 < level ∧ level < 7) (start : Span)
    (whole : Expression) (stops : goesOn (level + 1) (firstKind rest) = false)
    (further : ∀ count id after, builder.Grows [] after → after.Ensures (whole.IsAt · id) →
      Gives source (rounds (operatorRound operators operand start) count id) rest after last) :
    Gives source (operand >>= rounds (operatorRound operators operand start) count)
      (written (whole.tokens level) ++ rest) builder last := by
  induction whole using Expression.level_induction level (by omega) generalizing count rest with
  | unary operator isUnary operand tight =>
    exact absurd (tight.symm.trans (level_eq_seven.mpr isUnary)) inside.2.ne
  | binary operator isBinary left right here ih =>
    have levels : operator.operandLevels = (level, level + 1) := by
      cases operator with
      | assign => exact absurd here inside.1.ne
      | _ => simp [Operator.operandLevels, here]
    have found : (TokenKind.symbol operator.symbol).operatorAmong? operators = some operator :=
      operatorAmong?_symbol ((exact operator).mpr ⟨isBinary, here⟩) fun other member =>
        ((exact other).mp member).1.trans isBinary.symm
    have shape : written ((Expression.binary operator isBinary left right).tokens level) ++ rest =
        written (left.tokens level) ++ .token (.symbol operator.symbol) ::
          (written (right.tokens (level + 1)) ++ rest) := by
      simp [Expression.tokens, grouped, here, levels]
    rw [shape]
    -- the left operand ends at the operator, since that goes on with nothing that binds tighter
    refine ih (here ▸ goesOn_symbol operator) fun count id after grows ensures => ?_
    cases count with
    | zero => exact .exhausted
    | succ count =>
      rw [rounds]
      simp only [operatorRound, bind_assoc]
      refine .peekKind ?_
      simp only [firstKind_token, found, bind_assoc]
      refine .advance TokenKind.noConfusion fun _ _ => ?_
      refine (reads right rest stops).bind fun second mid grows' ensures' => ?_
      refine .store fun new last grows'' stored => further count new last
        (grows.trans (grows'.trans grows'')) ?_
      exact (ensures.join (grows'.trans grows'') (ensures'.join grows'' stored)).imp fun tree holds =>
        ⟨id, second, holds.2.2, holds.1, holds.2.1⟩
  | other whole other => exact gives_firstOperand reads stops other further

theorem reads_leftAssociative (reads : ReadsExpressions source operand (level + 1))
    (exact : ∀ operator : Operator, operator ∈ operators ↔
      operator.isUnary = false ∧ operator.level = level) (inside : 0 < level ∧ level < 7) :
    ReadsExpressions source (leftAssociative operators operand) level := by
  intro whole rest stops builder
  refine .currentSpan fun start => .bindLoop fun count => ?_
  have tighter : goesOn (level + 1) (firstKind rest) = false := goesOn_mono (Nat.le_succ level) stops
  refine gives_operators reads exact inside start whole tighter fun count id after grows ensures => ?_
  cases count with
  | zero => exact .exhausted
  | succ count =>
    have absent : firstKind rest ∉ operatorMarks operators := by
      intro member
      obtain ⟨operator, among, same⟩ := List.mem_map.mp member
      obtain ⟨isBinary, here⟩ := (exact operator).mp among
      exact ne_symbol_of_stops isBinary here.ge stops same.symm
    rw [rounds]
    simp only [operatorRound, bind_assoc]
    refine .peekKind ?_
    simp only [operatorAmong?_eq_none absent, pure_bind]
    exact .pure ⟨rfl, grows, ensures⟩

end

theorem reads_binary (reads : ReadsExpressions source expression 0) :
    ReadsExpressions source (binary expression) 1 := by
  refine reads_leftAssociative (reads_leftAssociative (reads_leftAssociative (reads_leftAssociative
    (reads_leftAssociative (reads_leftAssociative (reads_signed reads)
      ?_ ?_) ?_ ?_) ?_ ?_) ?_ ?_) ?_ ?_) ?_ ?_
  iterate 6
    · intro operator
      cases operator <;> decide
    · decide

theorem reads_assignment (reads : ReadsExpressions source expression 0) :
    ReadsExpressions source (assignment expression) 0 := by
  intro whole rest stops builder
  refine .currentSpan fun start => ?_
  induction whole using Expression.level_induction 0 (by decide) with
  | unary operator isUnary operand loose =>
    exact absurd (loose.symm.trans (level_eq_seven.mpr isUnary)) (by decide)
  | binary operator isBinary left right loose =>
    obtain rfl : operator = .assign := by
      cases operator <;> first | rfl | cases loose
    have shape : written ((Expression.binary .assign isBinary left right).tokens 0) ++ rest =
        written (left.tokens 1) ++ .token (.symbol .equal) :: (written (right.tokens 0) ++ rest) := by
      simp [Expression.tokens, grouped, Operator.operandLevels, Operator.symbol]
    rw [shape]
    refine (reads_binary reads left _ rfl).bind fun first mid grows ensures => ?_
    refine .eat TokenKind.noConfusion ((reads right rest stops).bind fun second after grows' ensures' => ?_)
    refine .of_bind_pure (.store fun id last grows'' stored => .pure
      ⟨rfl, grows.trans (grows'.trans grows''), ?_⟩)
    exact (ensures.join (grows'.trans grows'') (ensures'.join grows'' stored)).imp fun tree holds =>
      ⟨first, second, holds.2.2, holds.1, holds.2.1⟩
  | other whole loose =>
    rw [whole.tokens_succ loose]
    have tighter : goesOn 1 (firstKind rest) = false := goesOn_mono (Nat.zero_le 1) stops
    refine (reads_binary reads whole rest tighter).bind fun id after grows ensures => ?_
    have ends : firstKind rest ≠ .symbol Operator.assign.symbol :=
      ne_symbol_of_stops rfl (Nat.le_refl 0) stops
    exact .eatNot ends (.pure ⟨rfl, grows, ensures⟩)

end

theorem reads_unroll (depth : Nat) : ReadsExpressions source (unroll assignment depth) 0 := by
  induction depth with
  | zero => exact fun _ _ _ _ => .exhausted
  | succ depth ih => exact reads_assignment ih

/-- Expressions are read as they are written. -/
theorem reads_expression : ReadsExpressions source expression 0 :=
  fun whole rest stops builder => .recursive fun depth => reads_unroll depth whole rest stops builder

theorem reads_typeExpression : ReadsExpressions source typeExpression 8 :=
  fun whole rest stops builder => .mapError (reads_suffixed reads_expression whole rest stops builder)

end Parser

end IncrementalFrontend
