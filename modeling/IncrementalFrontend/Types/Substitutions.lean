import IncrementalFrontend.Name.Basic

/-!
Bindings of generic parameters to types, ascending by parameter, so that equal bindings are equal
whatever order they were written in.
-/
namespace IncrementalFrontend

/-- The identity of a canonical type. Equal types have the same one. -/
abbrev TypeId := Nat

structure Substitutions where
  bindings : List (Name × TypeId)
deriving DecidableEq, Repr

namespace Substitutions

def empty : Substitutions := ⟨[]⟩

def insertBinding (parameter : Name) (type : TypeId) :
    List (Name × TypeId) → List (Name × TypeId)
  | [] => [(parameter, type)]
  | (other, bound) :: rest =>
    match parameter.order other with
    | .lt => (parameter, type) :: (other, bound) :: rest
    | .eq => (parameter, type) :: rest
    | .gt => (other, bound) :: insertBinding parameter type rest

def ofList (bindings : List (Name × TypeId)) : Substitutions :=
  ⟨bindings.foldl (fun kept (parameter, type) => insertBinding parameter type kept) []⟩

def bound? (bindings : List (Name × TypeId)) (parameter : Name) : Option TypeId :=
  (bindings.find? (·.1 == parameter)).map (·.2)

theorem bound?_insertBinding (parameter other : Name) (type : TypeId)
    (bindings : List (Name × TypeId)) :
    bound? (insertBinding parameter type bindings) other =
      if parameter = other then some type else bound? bindings other := by
  induction bindings with
  | nil => by_cases same : parameter = other <;> simp [insertBinding, bound?, same]
  | cons head rest ih =>
    obtain ⟨name, _⟩ := head
    simp only [insertBinding]
    split
    · by_cases same : parameter = other <;> simp [bound?, same]
    · rename_i equal
      obtain rfl := Name.order_eq_iff.mp equal
      by_cases same : parameter = other <;> simp [bound?, same]
    · rename_i greater
      by_cases here : name = other
      · have : parameter ≠ other := by
          rintro rfl
          simp [Name.order_eq_iff.mpr here.symm] at greater
        simp [bound?, here, this]
      · simpa [bound?, here] using ih

def get? (substitutions : Substitutions) (parameter : Name) : Option TypeId :=
  bound? substitutions.bindings parameter

def size (substitutions : Substitutions) : Nat :=
  substitutions.bindings.length

def isEmpty (substitutions : Substitutions) : Bool :=
  substitutions.bindings.isEmpty

end Substitutions

end IncrementalFrontend
