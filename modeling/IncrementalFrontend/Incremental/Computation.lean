import IncrementalFrontend.Diagnostic.Basic

/-!
Queries and the computations that answer them. A computation is a tree of steps: it reads other
queries, asks the world outside, reports diagnostics, and ends in a result or an error. What it does
next depends on nothing but the answers it got.
-/
namespace IncrementalFrontend

inductive QueryError where
  /-- A query needs its own answer; the labels lead from its first request to the repeated one. -/
  | cycle (path : List String)
  | tableMismatch (query : String)
  | missingSlot (slot : Nat)
  | stackMismatch
deriving DecidableEq, Repr

namespace QueryError

def message : QueryError → String
  | cycle path => "cyclic query: " ++ " -> ".intercalate path
  | tableMismatch query => "query table for `" ++ query ++ "` holds values of another type"
  | missingSlot slot => s!"query slot #{slot} is not in the cache"
  | stackMismatch => "active query stack is out of balance"

def isCycle : QueryError → Bool
  | cycle _ => true
  | _ => false

end QueryError

/-- A family of queries with their values, and the world outside with its requests. -/
structure Signature where
  Query : Type
  Value : Query → Type
  Request : Type
  Reply : Request → Type
  World : Type
  decideQuery : DecidableEq Query

instance (S : Signature) : DecidableEq S.Query :=
  S.decideQuery

/-- The steps that lead to a result. -/
inductive Computation (S : Signature) (α : Type) : Type where
  | pure (result : α)
  | fail (error : QueryError)
  | read (query : S.Query) (next : Except QueryError (S.Value query) → Computation S α)
  | ask (request : S.Request) (next : S.Reply request → Computation S α)
  | report (diagnostic : Diagnostic) (next : Computation S α)

namespace Computation

variable {S : Signature} {α β γ : Type}

def bind : Computation S α → (α → Computation S β) → Computation S β
  | pure result, next => next result
  | fail error, _ => fail error
  | read query before, next => read query fun outcome => (before outcome).bind next
  | ask request before, next => ask request fun reply => (before reply).bind next
  | report diagnostic before, next => report diagnostic (before.bind next)

instance : Monad (Computation S) where
  pure := pure
  bind := bind

theorem bind_pure (computation : Computation S α) : computation.bind pure = computation := by
  induction computation with
  | pure => rfl
  | fail => rfl
  | read query before ih => simp [bind, ih]
  | ask request before ih => simp [bind, ih]
  | report diagnostic before ih => simp [bind, ih]

theorem bind_assoc (first : Computation S α) (next : α → Computation S β)
    (last : β → Computation S γ) :
    (first.bind next).bind last = first.bind fun result => (next result).bind last := by
  induction first with
  | pure => rfl
  | fail => rfl
  | read query before ih => simp [bind, ih]
  | ask request before ih => simp [bind, ih]
  | report diagnostic before ih => simp [bind, ih]

instance : LawfulMonad (Computation S) :=
  LawfulMonad.mk' _ bind_pure (fun _ _ => rfl) bind_assoc

def value (query : S.Query) : Computation S (S.Value query) :=
  read query fun
    | .ok value => pure value
    | .error error => fail error

def reply (request : S.Request) : Computation S (S.Reply request) :=
  ask request pure

def tell (diagnostic : Diagnostic) : Computation S Unit :=
  report diagnostic (pure ())

def orElse : Computation S α → Computation S α → Computation S α
  | pure result, _ => pure result
  | fail _, other => other
  | read query next, other => read query fun outcome => (next outcome).orElse other
  | ask request next, other => ask request fun reply => (next reply).orElse other
  | report diagnostic next, other => report diagnostic (next.orElse other)

end Computation

structure Rules (S : Signature) where
  compute : (query : S.Query) → Computation S (S.Value query)
  isVolatile : S.Query → Bool
  isUnchanged : (query : S.Query) → (old new : S.Value query) → Bool
  label : S.Query → String
  references : S.Query → List Nat
  serve : (request : S.Request) → S.World → S.Reply request × S.World

end IncrementalFrontend
