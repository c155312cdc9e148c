import IncrementalFrontend.Proofs.Incremental.Nesting

/-!
Accounts: what may be said of queries while a revision lasts. The engine keeps whatever an account
says, as long as the account follows the courses of computations. The plain account says nothing
but that errors come from cycles and computations, and so holds of all queries.
-/
namespace IncrementalFrontend

namespace Rules

variable {S : Signature} (rules : Rules S)

/-- The labels of the cycle that a query closes, from its first request to the repeated one. The
queries that led to it are listed from the innermost. -/
def cycleLabels (path : List S.Query) (query : S.Query) : List String :=
  (path.reverse.dropWhile (· ≠ query) ++ [query]).map rules.label

def Allows (error : QueryError) : Prop :=
  ∀ kind : QueryError → Prop, rules.RaiseOnly kind → (∀ path, kind (.cycle path)) → kind error

end Rules

/-- What may be said of the queries of a revision, and how it follows from their computations. -/
structure Account {S : Signature} (rules : Rules S) where
  journal : Journal rules
  world : S.World → Prop
  replies : (request : S.Request) → S.Reply request → Prop
  /-- What the world replied in some revision. -/
  past : ((request : S.Request) → S.Reply request → Prop) → Prop
  free : S.Query → Prop
  requested : List S.Query → S.Query → Prop
  answer : (query : S.Query) → S.Value query → Prop
  failure : List S.Query → S.Query → QueryError → Prop
  /-- Requests from the query nest less deeply than a number. -/
  settles : Nat → List S.Query → S.Query → Prop
  exact : Prop
  world_serve : ∀ {request current}, world current → world (rules.serve request current).2
  replies_serve : ∀ {request current}, world current →
    replies request (rules.serve request current).1
  past_replies : past replies
  steady : ∀ {others query readings reports ending}, past others →
    rules.isVolatile query = false →
    (rules.compute query).Takes others readings reports ending →
    (rules.compute query).Takes replies readings reports ending
  answer_unique : exact → ∀ {query value other}, answer query value → answer query other →
    value = other
  unchanged : exact → ∀ {query value other}, rules.isUnchanged query value other → value = other
  answer_of_inexact : ¬ exact → ∀ query value, answer query value
  requested_nil : ∀ query, requested [] query
  settles_zero : ∀ path query, ¬ settles 0 path query
  requested_next : ∀ {path query other before outcome after reports ending},
    requested path query → free query → query ∉ path →
    (rules.compute query).Takes replies (before ++ ⟨other, outcome⟩ :: after) reports ending →
    (∀ reading ∈ before, ∀ value, reading.outcome = .ok value → answer reading.query value) →
    requested (query :: path) other ∧
      ∀ depth, settles (depth + 1) path query → settles depth (query :: path) other
  answer_computed : ∀ {query readings reports value}, free query →
    (rules.compute query).Takes replies readings reports (.ok value) →
    (∀ reading ∈ readings, ∀ value, reading.outcome = .ok value → answer reading.query value) →
    answer query value
  failure_repeated : ∀ {path query}, free query → query ∈ path →
    failure path query (.cycle (rules.cycleLabels path query))
  failure_computed : ∀ {path query readings reports error}, free query → query ∉ path →
    (rules.compute query).Takes replies readings reports (.error error) →
    (∀ reading ∈ readings, ∀ value, reading.outcome = .ok value → answer reading.query value) →
    (∀ reading ∈ readings, ∀ error, reading.outcome = .error error →
      failure (query :: path) reading.query error) →
    failure path query error
  failure_read : ∀ {path query other before outcome after reports value error},
    free query → query ∉ path →
    (rules.compute query).Takes replies (before ++ ⟨other, outcome⟩ :: after) reports (.ok value) →
    (∀ reading ∈ before, ∀ value, reading.outcome = .ok value → answer reading.query value) →
    failure (query :: path) other error → failure path query error

namespace Account

variable {S : Signature}

def among {rules : Rules S} (account : Account rules) (journal : Journal rules) : Account rules :=
  { account with journal }

def plain (rules : Rules S) : Account rules where
  journal := .all rules
  world _ := True
  replies := rules.MayReply
  past others := others = rules.MayReply
  free _ := True
  requested _ _ := True
  answer _ _ := True
  failure _ _ error := rules.Allows error
  settles _ _ _ := False
  exact := False
  world_serve _ := trivial
  replies_serve _ := ⟨_, rfl⟩
  past_replies := rfl
  steady := by
    rintro _ _ _ _ _ rfl - takes
    exact takes
  answer_unique := False.elim
  unchanged := False.elim
  answer_of_inexact _ _ _ := trivial
  requested_nil _ := trivial
  settles_zero _ _ := False.elim
  requested_next _ _ _ _ _ := ⟨trivial, fun _ => False.elim⟩
  answer_computed _ _ _ := trivial
  failure_repeated _ _ _ _ cycles := cycles _
  failure_computed _ _ takes _ failed kind raises cycles :=
    takes.raises (raises _) fun reading member error outcome =>
      failed reading member error outcome kind raises cycles
  failure_read _ _ _ _ failed := failed

end Account

end IncrementalFrontend
