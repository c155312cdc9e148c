import IncrementalFrontend.Incremental.Computation

/-!
Scripts: small expressions over 64-bit integers that stand for the computations of queries. Their
arithmetic wraps around.
-/
namespace IncrementalFrontend

inductive ScriptKind where
  | number
  | node
  /-- Values at most 10 apart count as unchanged. -/
  | approximate
  | volatile
deriving DecidableEq, Repr

def ScriptKind.text : ScriptKind → String
  | number => "Number"
  | node => "Node"
  | approximate => "Approx"
  | volatile => "Vol"

inductive Script where
  | literal (value : Int64)
  | query (kind : ScriptKind) (key : String)
  | external (key : String)
  | add (parts : List Script)
  | multiply (parts : List Script)
  /-- The remainder from 0 up to the size of the divisor; 0 if the divisor is 0. -/
  | remainder (dividend divisor : Script)
  | sequence (parts : List Script)
  | choose (condition whenNonzero whenZero : Script)
  | attempt (first second : Script)
  | fail (error : QueryError)
  | isInQuery
  /-- Reports a diagnostic; 1 if that guarantees an error, else 0. -/
  | report (severity : Severity) (message : String)
  | topLevel (path : String)
  | nodes (label text : String)
  | linkage (path : String) (node : Nat)
  | record (path : String) (node : Nat) (name : String)

/-- A query without a script has the value 0. -/
instance : Inhabited Script :=
  ⟨.literal 0⟩

namespace Script

def size : Script → Nat
  | add parts | multiply parts | sequence parts => 1 + sizes parts
  | remainder a b | attempt a b => 1 + a.size + b.size
  | choose a b c => 1 + a.size + b.size + c.size
  | _ => 1
where
  sizes : List Script → Nat
    | [] => 0
    | part :: rest => part.size + sizes rest

def euclideanRemainder (a b : Int64) : Int64 :=
  if b = 0 then 0 else Int64.ofInt (a.toInt % b.toInt)

def isClose (a b : Int64) : Bool :=
  (a.toInt - b.toInt).natAbs ≤ 10

end Script

end IncrementalFrontend
