import Mathlib.Tactic.NoncommRing
import IncrementalFrontend.Parser.Expression
import IncrementalFrontend.Proofs.Parser.Grammar
import IncrementalFrontend.Proofs.Parser.Phrases

/-!
The parsers of expressions parse the languages of expressions. They read no braces and report
nothing, whether they succeed or fail.
-/
namespace IncrementalFrontend

open Grammar Computability

namespace Parser

variable {α : Type} {effect : Effect} {room : Nat} {source : Source} {before : State}

def suffixMarks : List TokenKind :=
  [.symbol .parenOpen, .symbol .dot]

def startsPrimary : TokenKind → Bool
  | .identifier _ | .integer _ | .string _ | .symbol .parenOpen => true
  | _ => false

def startsExpression : TokenKind → Bool
  | .symbol .minus | .symbol .bang => true
  | kind => startsPrimary kind

theorem expectIdentifier_apply : expectIdentifier source before =
    match before.cursor.kind with
    | .identifier name => some (.ok name, { before with cursor := before.cursor.advance })
    | _ => some (.error (.noIdentifier before.cursor.current), before) := by
  have looks : cursor source before = some (.ok before.cursor, before) := rfl
  rw [expectIdentifier, bind_of_ok looks, Cursor.expectIdentifier]
  cases before.cursor.kind <;> rfl

theorem listed_unrolled (item : Language TokenKind) :
    1 + item * (mark .comma * listed item + 1) = listed item := by
  have unrolled := Language.one_add_self_mul_kstar_eq_kstar (mark .comma * item)
  have regroup : item * (mark .comma * listed item + 1) =
      item * (1 + mark .comma * item * (mark .comma * item)∗) * maybe (mark .comma) := by
    unfold listed maybe
    noncomm_ring
  rw [regroup, unrolled, listed, maybe, add_comm]

theorem listed_eq (item : Language TokenKind) (close : Symbol) :
    mark close * 1 + item * (mark .comma * (listed item * mark close) + mark close * 1) =
      listed item * mark close := by
  nth_rewrite 2 [← listed_unrolled]
  noncomm_ring

namespace Parses

theorem expectIdentifier :
    Parses effect room expectIdentifier source before (Grammar.valued .identifier) ∅ := by
  by_cases named : ∃ name, before.cursor.kind = .identifier name
  · obtain ⟨name, current⟩ := named
    have ran : Parser.expectIdentifier source before =
        some (.ok name, { before with cursor := before.cursor.advance }) := by
      rw [expectIdentifier_apply, current]
    have parses : Parses effect room Parser.expectIdentifier source before
        ({[.identifier name]} * 1) ∅ := .token rfl current (ran.trans rfl) fun mid _ _ => .pure name
    rw [mul_one] at parses
    exact parses.valued current
  · have ran : Parser.expectIdentifier source before =
        some (.error (.noIdentifier before.cursor.current), before) := by
      rw [expectIdentifier_apply]
      split
      · exact absurd ⟨_, ‹_›⟩ named
      · rfl
    exact .fail ran rfl (.valued fun name same => named ⟨name, (Set.mem_singleton_iff.mp same).symm⟩)

variable {parser : Parser α} {language : Language TokenKind} {avoid : Set TokenKind}

/-- What may follow behind a symbol. -/
theorem afterSymbol {symbol : Symbol} (plain : (TokenKind.symbol symbol).isPlain)
    (parses : ∀ mid, Parses effect (room - 1) parser source mid language avoid) :
    Parses effect room (afterSymbol symbol parser) source before (maybe (mark symbol * language))
      (insert (.symbol symbol) avoid) := by
  refine .eat plain (fun mid _ _ => ?_) (fun _ => .pure none) (.one ?_)
  · have parses := (parses mid).map some
    rw [map_eq_pure_bind] at parses
    exact parses.stricter (Set.subset_insert ..)
  · exact Set.singleton_subset_iff.mpr (Set.mem_insert ..)

/-- Items between commas up to a closing symbol. -/
theorem listUntil {close : Symbol} {starts : TokenKind → Bool} (fits : room ≤ source.budget)
    (plain : (TokenKind.symbol close).isPlain) (opens : Opens language starts)
    (apart : starts (.symbol close) = false) (distinct : .comma ≠ close)
    (follows : .symbol .comma ∉ avoid ∧ .symbol close ∉ avoid)
    (parses : ∀ mid, Parses effect room parser source mid language avoid) :
    Parses effect room (listUntil close parser) source before (listed language * mark close)
      ∅ := by
  refine .loop fits (listed_eq language close) fun items before count next fewer again done => ?_
  rw [bind_assoc]
  refine .eat plain (fun mid _ _ => ?_) (fun _ => ?_) ?_
  · exact (done items mid).less (Nat.sub_le ..)
  · simp only [Bool.false_eq_true, if_false, bind_assoc]
    refine ((parses before).less fewer).bind (fun result mid word _ _ _ _ => ?_) ?_
    · refine .eat rfl (fun mid _ _ => ?_) (fun _ => ?_) (.token ?_)
      · exact (again _ mid).less (by omega)
      · simp only [Bool.false_eq_true, if_false, bind_assoc]
        refine .bind (.expect plain) (fun _ mid _ _ _ _ _ => ?_) (.one subset_rfl)
        exact (done _ mid).less (by omega)
      · simpa using distinct.symm
    · exact .add (.token follows.1) (.token follows.2)
  · exact opens.mul.precedes fun kind same => same ▸ apart

end Parses

theorem opens_primary (language : Language TokenKind) :
    Opens (Grammar.primary language) startsPrimary :=
  .add (.valued fun _ => rfl) (.add (.valued fun _ => rfl) (.add (.valued fun _ => rfl)
    (.mul (.token rfl))))

/-- A token that is a node of its own. -/
theorem parses_leaf {kind : TokenKind} (plain : kind.isPlain) (current : before.cursor.kind = kind)
    (node : Node) (span : Span) :
    Parses effect room (do
      let _ ← advance
      let location ← locate span
      build (·.store node location)) source before {[kind]} ∅ := by
  rw [← mul_one ({[kind]} : Language TokenKind)]
  refine .advance plain current fun mid _ _ => .idle (idle_locate span) fun location mid _ _ => ?_
  exact .of_idle (idle_build_store node location)

section

variable {expression : Parser NodeId} {language : Language TokenKind} {avoid : Set TokenKind}

theorem startsPrimary_cases (kind : TokenKind) : (∃ name, kind = .identifier name) ∨
    (∃ value, kind = .integer value) ∨ (∃ content, kind = .string content) ∨
    kind = .symbol .parenOpen ∨ startsPrimary kind = false := by
  cases kind with
  | identifier name => exact .inl ⟨name, rfl⟩
  | integer value => exact .inr (.inl ⟨value, rfl⟩)
  | string content => exact .inr (.inr (.inl ⟨content, rfl⟩))
  | symbol mark =>
    by_cases opens : mark = .parenOpen
    · exact .inr (.inr (.inr (.inl (congrArg _ opens))))
    · refine .inr (.inr (.inr (.inr ?_)))
      cases mark <;> first | rfl | exact absurd rfl opens
  | _ => exact .inr (.inr (.inr (.inr rfl)))

theorem primary_error (expression : Parser NodeId) (apart : startsPrimary before.cursor.kind = false) :
    primary expression source before = some (.error (.noExpression before.cursor.current), before) := by
  have looks : current source before = some (.ok before.cursor.current, before) := rfl
  rw [primary, bind_of_ok looks]
  change startsPrimary before.cursor.current.kind = false at apart
  dsimp only
  generalize before.cursor.current.kind = kind at apart ⊢
  cases kind with
  | symbol mark => cases mark <;> first | rfl | cases apart
  | _ => first | rfl | cases apart

theorem parses_primary (follows : .symbol .parenClose ∉ avoid)
    (parses : ∀ mid, Parses effect (room - 1) expression source mid language avoid) :
    Parses effect room (primary expression) source before (Grammar.primary language) ∅ := by
  rcases startsPrimary_cases before.cursor.kind with
    ⟨name, current⟩ | ⟨value, current⟩ | ⟨content, current⟩ | current | apart
  · have shape : before.cursor.current.kind = .identifier name := current
    unfold primary
    refine .peek ?_
    simp only [shape]
    refine ((parses_leaf rfl current _ _).valued current).left ?_
    rw [current]
    exact .add (.valued (by simp)) (.add (.valued (by simp)) (.token (by simp)))
  · have shape : before.cursor.current.kind = .integer value := current
    unfold primary
    refine .peek ?_
    simp only [shape]
    refine .right (.left ((parses_leaf rfl current _ _).valued current) ?_) ?_
    all_goals rw [current]
    · exact .add (.valued (by simp)) (.token (by simp))
    · exact .valued (by simp)
  · have shape : before.cursor.current.kind = .string content := current
    unfold primary
    refine .peek ?_
    simp only [shape]
    refine .right (.right (.left ((parses_leaf rfl current _ _).valued current) ?_) ?_) ?_
    all_goals rw [current]
    · exact .token (by simp)
    · exact .valued (by simp)
    · exact .valued (by simp)
  · have shape : before.cursor.current.kind = .symbol .parenOpen := current
    unfold primary
    refine .peek ?_
    simp only [shape]
    refine .right (.right (.right (.advance rfl current fun mid _ _ => ?_) ?_) ?_) ?_
    · refine (parses mid).bind (fun inner mid word _ _ _ _ => .andPure (.expect rfl) _) ?_
      exact mul_one (mark .parenClose) ▸ .token follows
    all_goals rw [current]; exact .valued (by simp)
  · refine .fail (primary_error expression apart) rfl ?_
    exact (opens_primary language).precedes fun kind same => same ▸ apart

def suffixRound (expression : Parser NodeId) (start : Span) (node : NodeId) :
    Parser (Round NodeId NodeId) := do
  if ← eatSymbol .parenOpen then
    let actuals ← listUntil .parenClose expression
    return .again (← store (.call node actuals) start)
  else if ← eatSymbol .dot then
    let name ← expectIdentifier
    return .again (← store (.field node name) start)
  else
    return .done node

theorem suffix_kstar (language : Language TokenKind) :
    mark .parenOpen * (listed language * mark .parenClose * (suffix language)∗) +
      (mark .dot * (valued .identifier * (suffix language)∗) + 1) = (suffix language)∗ := by
  have unrolled := Language.one_add_self_mul_kstar_eq_kstar (suffix language)
  have expand (more : Language TokenKind) : suffix language * more =
      mark .parenOpen * (listed language * mark .parenClose * more) +
        mark .dot * (valued .identifier * more) := by
    rw [suffix]
    noncomm_ring
  rwa [expand, add_comm 1, add_assoc] at unrolled

theorem parses_suffixes (fits : room ≤ source.budget)
    (opens : Opens language startsExpression)
    (follows : .symbol .comma ∉ avoid ∧ .symbol .parenClose ∉ avoid)
    (parses : ∀ mid, Parses effect (room - 1) expression source mid language avoid)
    (start : Span) (head : NodeId) :
    Parses effect room (loop head (suffixRound expression start)) source before
      (suffix language)∗ (among suffixMarks) := by
  refine .loop fits (suffix_kstar language) fun node before count next fewer again done => ?_
  rw [suffixRound, bind_assoc]
  refine .eat rfl (fun mid _ _ => ?_) (fun _ => ?_) ?_
  · simp only [if_true, bind_assoc]
    refine .bind (.listUntil (by omega) rfl opens rfl nofun follows fun mid => ?_)
      (fun actuals mid word _ _ _ _ => .idle (idle_store _ start) fun node mid _ _ => ?_)
      .nothing
    · exact (parses mid).less (by omega)
    · exact (again node mid).less (by omega)
  · simp only [Bool.false_eq_true, if_false, bind_assoc]
    refine .eat rfl (fun mid _ _ => ?_) (fun _ => ?_) (.one (by decide))
    · simp only [if_true, bind_assoc]
      refine .bind .expectIdentifier
        (fun name mid word _ _ _ _ => .idle (idle_store _ start) fun node mid _ _ => ?_)
        .nothing
      exact (again node mid).less (by omega)
    · exact done node before
  · exact .add (.token (by simp)) (.one (by decide))

theorem parses_suffixed (fits : room ≤ source.budget)
    (opens : Opens language startsExpression)
    (follows : .symbol .comma ∉ avoid ∧ .symbol .parenClose ∉ avoid)
    (parses : ∀ mid, Parses effect (room - 1) expression source mid language avoid) :
    Parses effect room (suffixed expression) source before (Grammar.suffixed language)
      (among suffixMarks) := by
  refine .idle idle_currentSpan fun start mid _ _ => ?_
  refine .bind (parses_primary follows.2 parses) (fun head mid word _ _ _ _ => ?_)
    .nothing
  refine (parses_suffixes fits opens follows parses start head).less (Nat.sub_le ..)

def operatorMarks (operators : List Operator) : List TokenKind :=
  operators.map fun operator => .symbol operator.symbol

theorem isPlain_symbol (operator : Operator) : (TokenKind.symbol operator.symbol).isPlain := by
  cases operator <;> rfl

theorem opens_marks (operators : List Operator) :
    Opens (marks (operators.map Operator.symbol)) (· ∈ operatorMarks operators) := by
  rw [marks, List.map_map]
  exact .anyOf fun kind member => decide_eq_true member

/-- Whether the current token is one of some operators decides what is parsed. -/
theorem Parses.operatorAmong {parser : Parser α} {other : Language TokenKind}
    (operators : List Operator)
    (taken : ∀ operator, before.cursor.kind = .symbol operator.symbol →
      before.cursor.kind.operatorAmong? operators = some operator →
      Parses effect room parser source before ({[.symbol operator.symbol]} * language) avoid)
    (left : before.cursor.kind.operatorAmong? operators = none →
      Parses effect room parser source before other avoid)
    (apart : Precedes other avoid (among (operatorMarks operators))) :
    Parses effect room parser source before
      (marks (operators.map Operator.symbol) * language + other) avoid := by
  cases found : before.cursor.kind.operatorAmong? operators with
  | none =>
    refine (left found).right
      ((opens_marks operators).mul.precedes fun kind same => same ▸ ?_)
    refine decide_eq_false fun member => ?_
    obtain ⟨operator, member, same⟩ := List.mem_map.mp member
    exact List.find?_eq_none.mp found operator member (beq_iff_eq.mpr same.symm)
  | some operator =>
    have member : operator ∈ operators := List.mem_of_find?_eq_some found
    have current : before.cursor.kind = .symbol operator.symbol := by
      unfold TokenKind.operatorAmong? at found
      simpa using List.find?_some found
    have marked : .symbol operator.symbol ∈ operatorMarks operators :=
      List.mem_map.mpr ⟨operator, member, rfl⟩
    rw [marks, List.map_map]
    refine (Parses.oneOf_mul current marked (taken operator current found)).left ?_
    intro word rest inside follows same
    refine apart word rest inside follows ?_
    rwa [Set.mem_singleton_iff.mp same, current]

theorem parses_signs (fits : room ≤ source.budget) :
    Parses effect room signs source before (marks [.minus, .bang])∗
      (among (operatorMarks Operator.unary)) := by
  have fixed := Language.one_add_self_mul_kstar_eq_kstar (marks [.minus, .bang])
  rw [add_comm] at fixed
  refine .loop fits fixed fun signs before count next fewer again done => ?_
  rw [bind_assoc]
  refine .peekKind (.operatorAmong Operator.unary (fun operator current found => ?_)
    (fun found => ?_) ?_)
  · simp only [found, bind_assoc]
    refine .advance (isPlain_symbol operator) current fun mid _ _ => ?_
    exact again _ mid
  · simp only [found]
    exact done signs before
  · exact .one subset_rfl

theorem idle_foldlM {β : Type} {step : β → α → Parser β}
    (idle : ∀ value item, Idle effect (step value item)) (items : List α) (value : β) :
    Idle effect (items.foldlM step value) := by
  induction items generalizing value with
  | nil => exact idle_pure value
  | cons item rest ih => exact (idle value item).bind ih

theorem startsPrimary_of_operator {kind : TokenKind} (operators : List Operator)
    (member : kind ∈ operatorMarks operators) : startsPrimary kind = false := by
  obtain ⟨operator, -, rfl⟩ := List.mem_map.mp member
  cases operator <;> rfl

theorem opens_suffixed (language : Language TokenKind) :
    Opens (Grammar.suffixed language) startsPrimary :=
  (opens_primary language).mul

def applySigns (operand : NodeId) (signs : List (Operator × Span)) : Parser NodeId :=
  signs.foldlM (fun node (operator, start) => storeOperation operator [node] start) operand

theorem signed_eq (expression : Parser NodeId) : signed expression = (do
    let signs ← signs
    let operand ← suffixed expression
    applySigns operand signs) :=
  rfl

theorem parses_signed (fits : room ≤ source.budget)
    (opens : Opens language startsExpression)
    (follows : .symbol .comma ∉ avoid ∧ .symbol .parenClose ∉ avoid)
    (parses : ∀ mid, Parses effect (room - 1) expression source mid language avoid) :
    Parses effect room (signed expression) source before (Grammar.signed language)
      (among suffixMarks) := by
  refine .bind (parses_signs fits) (fun signs mid word _ _ _ _ => ?_)
    ((opens_suffixed language).precedes fun kind => startsPrimary_of_operator _)
  refine .andIdle ?_ fun operand => idle_foldlM (fun node item => ?_) signs operand
  · exact (parses_suffixed fits opens follows parses).less (Nat.sub_le ..)
  · exact idle_store (.operation item.1 [node]) item.2

/-- Operands of one level, each after one of the operators but the first. -/
theorem parses_leftAssociative {operators : List Operator} {operand : Parser NodeId}
    (fits : room ≤ source.budget) (apart : ∀ kind ∈ operatorMarks operators, kind ∉ avoid)
    (parses : ∀ mid, Parses effect room operand source mid language avoid) :
    Parses effect room (leftAssociative operators operand) source before
      (chain (operators.map Operator.symbol) language) (among (operatorMarks operators) ∪ avoid) := by
  have fixed := Language.one_add_self_mul_kstar_eq_kstar
    (marks (operators.map Operator.symbol) * language)
  rw [add_comm, mul_assoc] at fixed
  have precedes : Precedes (marks (operators.map Operator.symbol) * language)∗
      (among (operatorMarks operators) ∪ avoid) avoid :=
    (opens_marks operators).mul.kstar_precedes
      (fun kind shunned => decide_eq_false fun member => apart kind member shunned)
      Set.subset_union_right
  refine .idle idle_currentSpan fun start mid _ _ => .bind (parses mid)
    (fun first mid word _ _ _ _ => .less ?_ (Nat.sub_le ..)) precedes
  refine .loop fits fixed fun left before count next fewer again done => ?_
  rw [bind_assoc]
  refine .peekKind (.operatorAmong operators (fun operator current found => ?_)
    (fun found => ?_) (.one Set.subset_union_left))
  · simp only [found, bind_assoc]
    refine .advance (isPlain_symbol operator) current fun mid _ _ => ?_
    refine .bind ((parses mid).less (by omega))
      (fun right mid word _ _ _ _ => .idle (idle_store _ start) fun node mid _ _ => ?_) precedes
    exact (again node mid).less (Nat.sub_le ..)
  · simp only [found]
    exact done left before

def continuations : List TokenKind :=
  .symbol .equal :: (Operator.binaryLevels.flatMap operatorMarks ++ suffixMarks)

theorem parses_binary (fits : room ≤ source.budget)
    (opens : Opens language startsExpression)
    (follows : .symbol .comma ∉ avoid ∧ .symbol .parenClose ∉ avoid)
    (parses : ∀ mid, Parses effect (room - 1) expression source mid language avoid) :
    Parses effect room (binary expression) source before (disjunction language)
      (among continuations.tail) := by
  have operand (mid : State) : Parses effect room (signed expression) source mid
    (Grammar.signed language) (among suffixMarks) := parses_signed fits opens follows parses
  refine .stricter (parses_leftAssociative fits ?_ fun mid => parses_leftAssociative fits ?_ fun mid =>
    parses_leftAssociative fits ?_ fun mid => parses_leftAssociative fits ?_ fun mid =>
    parses_leftAssociative fits ?_ fun mid => parses_leftAssociative fits ?_ operand) ?_
  iterate 6
    · decide
  · simp only [among_union]
    decide

theorem opens_disjunction (language : Language TokenKind) :
    Opens (disjunction language) startsExpression := by
  have signs : Opens (marks [.minus, .bang]) startsExpression := .anyOf (by decide)
  have operand : Opens (Grammar.suffixed language) startsExpression := by
    refine (opens_suffixed language).mono fun kind start => ?_
    unfold startsExpression
    split <;> first | rfl | exact start
  have chained {symbols : List Symbol} {language : Language TokenKind}
      (opens : Opens language startsExpression) : Opens (chain symbols language) startsExpression :=
    opens.mul
  exact chained (chained (chained (chained (chained (chained (signs.kstar_mul operand))))))

theorem opens_assignment (language : Language TokenKind) :
    Opens (Grammar.assignment language) startsExpression :=
  (opens_disjunction language).mul

/-- An expression, given its parts. -/
theorem parses_assignment (fits : room ≤ source.budget) (opens : Opens language startsExpression)
    (parses : ∀ mid, Parses effect (room - 1) expression source mid language (among continuations)) :
    Parses effect room (assignment expression) source before (Grammar.assignment language)
      (among continuations) := by
  refine .idle idle_currentSpan fun start mid _ _ => ?_
  refine .bind (parses_binary fits opens (by decide) parses)
    (fun target mid word _ _ _ _ => .eat rfl (fun mid _ _ => ?_) (fun _ => ?_) ?_) ?_
  · refine .andIdle ?_ fun value => idle_store (.operation .assign [target, value]) start
    exact (parses mid).less (by omega)
  · exact .pure target
  · exact .one (by decide)
  · exact .add (.token (by decide)) (.one (by decide))

end

theorem opens_expression : Opens Grammar.expression startsExpression :=
  assignment_expression ▸ opens_assignment Grammar.expression

theorem parses_unroll (depth : Nat) (fits : depth ≤ source.budget) (before : State) :
    Parses effect depth (unroll assignment depth) source before Grammar.expression
      (among continuations) := by
  induction depth generalizing before with
  | zero => exact .exhausted
  | succ depth ih =>
    have parses : Parses effect (depth + 1) (assignment (unroll assignment depth)) source before
      (Grammar.assignment Grammar.expression) (among continuations) :=
      parses_assignment fits opens_expression (ih (Nat.le_of_succ_le fits))
    rw [assignment_expression] at parses
    exact ⟨parses.ends, parses.ran⟩

/-- Expressions are parsed in full, whatever the budget. -/
theorem parses_expression (fits : room ≤ source.budget) :
    Parses effect room expression source before Grammar.expression (among continuations) := by
  have parses : Parses effect room (unroll assignment source.budget) source before
    Grammar.expression (among continuations) := (parses_unroll _ (Nat.le_refl _) before).less fits
  exact ⟨parses.ends, parses.ran⟩

theorem parses_typeExpression (fits : room ≤ source.budget) :
    Parses effect room typeExpression source before (Grammar.suffixed Grammar.expression)
      (among suffixMarks) := by
  refine .mapError (fun error => ?_) (parses_suffixed fits opens_expression (by decide)
    fun mid => parses_expression ((Nat.sub_le ..).trans fits))
  obtain ⟨kind, span, note⟩ := error
  cases kind <;> rfl

end Parser

end IncrementalFrontend
