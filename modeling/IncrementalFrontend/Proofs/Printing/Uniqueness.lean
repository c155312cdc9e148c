import IncrementalFrontend.Proofs.Printing.Program

/-!
A tree holds at most one program: what is at a node determines the construct, and the nodes that it
refers to determine the parts.
-/
namespace IncrementalFrontend

def Node.isExpression : Node → Bool
  | .identifier .. | .integer .. | .string .. | .call .. | .field .. | .operation .. => true
  | _ => false

namespace Program

open Relator

variable {tree : SyntaxTree}

theorem leftUnique_rel {α β : Type} {rel : α → β → Prop} (unique : LeftUnique rel) :
    LeftUnique (Option.Rel rel) := by
  intro first second id here there
  cases here with
  | none => cases there; rfl
  | some here =>
    cases there with
    | some there => rw [unique here there]

mutual

theorem Expression.IsAt.unique : ∀ {first second : Expression} {id : NodeId}, first.IsAt tree id →
    second.IsAt tree id → first = second
  | .identifier name, second, id, here, there => by
    cases second <;> simp_all [Expression.IsAt]
  | .integer value, second, id, here, there => by
    cases second <;> simp_all [Expression.IsAt]
  | .string content, second, id, here, there => by
    cases second <;> simp_all [Expression.IsAt]
  | .call callee actuals, second, id, here, there => by
    obtain ⟨first, others, node, calleeAt, actualsAt⟩ := here
    cases second <;> simp [Expression.IsAt, node] at there
    obtain ⟨calleeAt', actualsAt'⟩ := there
    rw [calleeAt.unique calleeAt', actualsAt.unique actualsAt']
  | .field receiver name, second, id, here, there => by
    obtain ⟨inner, node, receiverAt⟩ := here
    cases second <;> simp [Expression.IsAt, node] at there
    obtain ⟨rfl, receiverAt'⟩ := there
    rw [receiverAt.unique receiverAt']
  | .unary operator isUnary operand, second, id, here, there => by
    obtain ⟨inner, node, operandAt⟩ := here
    cases second <;> simp [Expression.IsAt, node] at there
    obtain ⟨rfl, operandAt'⟩ := there
    cases operandAt.unique operandAt'
    rfl
  | .binary operator isBinary left right, second, id, here, there => by
    obtain ⟨a, b, node, leftAt, rightAt⟩ := here
    cases second <;> simp [Expression.IsAt, node] at there
    obtain ⟨rfl, leftAt', rightAt'⟩ := there
    cases leftAt.unique leftAt'
    cases rightAt.unique rightAt'
    rfl

theorem Expression.AreAt.unique : ∀ {first second : List Expression} {ids : List NodeId},
    Expression.AreAt tree first ids → Expression.AreAt tree second ids → first = second
  | [], second, ids, here, there => by
    cases second <;> simp_all [Expression.AreAt]
  | expression :: rest, second, ids, here, there => by
    obtain ⟨id, others, rfl, first, more⟩ := here
    cases second <;> simp [Expression.AreAt] at there
    obtain ⟨first', more'⟩ := there
    rw [first.unique first', more.unique more']

end

theorem leftUnique_expression : LeftUnique (Expression.IsAt tree) :=
  fun _ _ _ => Expression.IsAt.unique

theorem Expression.IsAt.exists_node {id : NodeId} : ∀ {expression : Expression},
    expression.IsAt tree id → ∃ node, tree.node? id = some node ∧ node.isExpression
  | .identifier _, here | .integer _, here | .string _, here => ⟨_, here, rfl⟩
  | .call .., ⟨_, _, here, _⟩ | .binary .., ⟨_, _, here, _⟩ => ⟨_, here, rfl⟩
  | .field .., ⟨_, here, _⟩ | .unary .., ⟨_, here, _⟩ => ⟨_, here, rfl⟩

/-- No other construct is where an expression is. -/
theorem Expression.IsAt.elim {expression : Expression} {id : NodeId} {node : Node}
    (here : expression.IsAt tree id) (there : tree.node? id = some node)
    (other : node.isExpression = false) : False := by
  obtain ⟨_, same, isExpression⟩ := here.exists_node
  cases there.symm.trans same
  exact Bool.false_ne_true (other.symm.trans isExpression)

theorem leftUnique_formal : LeftUnique (Formal.IsAt tree) := by
  intro first second id here there
  obtain ⟨intent, name, type, init⟩ := first
  obtain ⟨intent', name', type', init'⟩ := second
  obtain ⟨typeId, initId, node, typeAt, initAt⟩ := here
  simp only [Formal.IsAt, node, Option.some.injEq, Node.formal.injEq] at there
  obtain ⟨_, _, ⟨rfl, rfl, rfl, rfl⟩, typeAt', initAt'⟩ := there
  cases leftUnique_rel leftUnique_expression typeAt typeAt'
  cases leftUnique_rel leftUnique_expression initAt initAt'
  rfl

theorem Header.IsOf.unique {first second : Header} {function : Function} (here : first.IsOf tree function)
    (there : second.IsOf tree function) : first = second := by
  have texts : LeftUnique fun (text : Name) id => tree.node? id = some (.string text) := by
    intro text text' id here there
    cases here.symm.trans there
    rfl
  have linkageName := leftUnique_rel texts here.linkageName there.linkageName
  have formals := leftUnique_formal.forall₂ here.formals there.formals
  have returnType := leftUnique_rel leftUnique_expression here.returnType there.returnType
  have condition := leftUnique_rel leftUnique_expression here.condition there.condition
  cases here
  cases there
  cases first
  cases second
  simp_all

theorem leftUnique_enumMember : LeftUnique (EnumMember.IsAt tree) := by
  intro first second id here there
  cases first with
  | comment text style => cases second <;> simp_all [EnumMember.IsAt]
  | element name init =>
    obtain ⟨value, node, initAt⟩ := here
    cases second <;> simp [EnumMember.IsAt, node] at there
    obtain ⟨rfl, initAt'⟩ := there
    rw [leftUnique_rel leftUnique_expression initAt initAt']

mutual

theorem Statement.IsAt.unique : ∀ {first second : Statement} {id : NodeId}, first.IsAt tree id →
    second.IsAt tree id → first = second
  | .comment text style, second, id, here, there => by
    simp only [Statement.IsAt] at here
    cases second <;> simp [Statement.IsAt, here] at there
    case comment => obtain ⟨rfl, rfl⟩ := there; rfl
    case expression => exact (there.elim here rfl).elim
  | .moduleDecl visibility isPrototype name members, second, id, here, there => by
    obtain ⟨ids, node, membersAt⟩ := here
    cases second <;> simp [Statement.IsAt, node] at there
    case moduleDecl =>
      obtain ⟨⟨rfl, rfl, rfl⟩, membersAt'⟩ := there
      rw [membersAt.unique membersAt']
    case expression => exact (there.elim node rfl).elim
  | .enumDecl visibility name members, second, id, here, there => by
    obtain ⟨ids, node, membersAt⟩ := here
    cases second <;> simp [Statement.IsAt, node] at there
    case enumDecl =>
      obtain ⟨⟨rfl, rfl⟩, membersAt'⟩ := there
      rw [leftUnique_enumMember.forall₂ membersAt membersAt']
    case expression => exact (there.elim node rfl).elim
  | .functionDecl header isOwn body, second, id, here, there => by
    obtain ⟨function, ids, node, headerOf, bodied, bodyAt⟩ := here
    cases second <;> simp [Statement.IsAt, node, bodied] at there
    case functionDecl =>
      obtain ⟨headerOf', bodyAt'⟩ := there
      cases headerOf.unique headerOf'
      rw [bodyAt.unique bodyAt']
    case expression => exact (there.elim node rfl).elim
  | .functionHead header, second, id, here, there => by
    obtain ⟨function, node, headerOf, bodied⟩ := here
    cases second <;> simp [Statement.IsAt, node, bodied] at there
    case functionHead => rw [headerOf.unique there]
    case expression => exact (there.elim node rfl).elim
  | .variableDecl visibility kind name type init, second, id, here, there => by
    obtain ⟨typeId, initId, node, typeAt, initAt⟩ := here
    cases second <;> simp [Statement.IsAt, node] at there
    case variableDecl =>
      obtain ⟨⟨rfl, rfl, rfl⟩, typeAt', initAt'⟩ := there
      rw [leftUnique_rel leftUnique_expression typeAt typeAt',
        leftUnique_rel leftUnique_expression initAt initAt']
    case expression => exact (there.elim node rfl).elim
  | .result value, second, id, here, there => by
    obtain ⟨valueId, node, valueAt⟩ := here
    cases second <;> simp [Statement.IsAt, node] at there
    case result => rw [leftUnique_rel leftUnique_expression valueAt there]
    case expression => exact (there.elim node rfl).elim
  | .block members, second, id, here, there => by
    obtain ⟨ids, node, membersAt⟩ := here
    cases second <;> simp [Statement.IsAt, node] at there
    case block => rw [membersAt.unique there]
    case expression => exact (there.elim node rfl).elim
  | .expression value, second, id, here, there => by
    cases second
    case expression => rw [Expression.IsAt.unique here there]
    case comment => exact (here.elim there rfl).elim
    case moduleDecl | enumDecl | block | result | functionHead =>
      obtain ⟨_, node, -⟩ := there
      exact (here.elim node rfl).elim
    case functionDecl | variableDecl =>
      obtain ⟨_, _, node, -⟩ := there
      exact (here.elim node rfl).elim

theorem Statement.AreAt.unique : ∀ {first second : List Statement} {ids : List NodeId},
    Statement.AreAt tree first ids → Statement.AreAt tree second ids → first = second
  | [], second, ids, here, there => by
    cases second <;> simp_all [Statement.AreAt]
  | statement :: rest, second, ids, here, there => by
    obtain ⟨id, others, rfl, first, more⟩ := here
    cases second <;> simp [Statement.AreAt] at there
    obtain ⟨first', more'⟩ := there
    rw [first.unique first', more.unique more']

end

end Program

end IncrementalFrontend
