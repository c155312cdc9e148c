import Mathlib.Data.List.Induction
import IncrementalFrontend.Proofs.Types.Canonical

/-!
Substitutions are a finite map in one form: ascending by parameter, each with the last type that was
bound to it. They can be collected and looked up by halving.
-/
namespace IncrementalFrontend

namespace Name

variable {a b c : Name}

theorem order_eq_lt_iff : a.order b = .lt ↔
    a.shard.val < b.shard.val ∨ a.shard.val = b.shard.val ∧ a.slot < b.slot := by
  simp only [order, Ordering.then_eq_lt, Nat.compare_eq_lt, Nat.compare_eq_eq]

theorem order_eq_gt_iff : a.order b = .gt ↔ b.order a = .lt := by
  rw [← order_swap, Ordering.swap_eq_gt]

theorem order_lt_trans (first : a.order b = .lt) (second : b.order c = .lt) : a.order c = .lt := by
  rw [order_eq_lt_iff] at first second ⊢
  omega

theorem ne_of_order_lt (less : a.order b = .lt) : a ≠ b := by
  rintro rfl
  rw [order_eq_lt_iff] at less
  omega

end Name

namespace Substitutions

variable {bindings others before behind : List (Name × TypeId)} {parameter : Name} {type : TypeId}

def IsAscending (bindings : List (Name × TypeId)) : Prop :=
  bindings.Pairwise fun a b => a.1.order b.1 = .lt

def lastBound? (bindings : List (Name × TypeId)) (parameter : Name) : Option TypeId :=
  (bindings.filter (·.1 == parameter)).getLast?.map (·.2)

def BindAlike (bindings others : List (Name × TypeId)) : Prop :=
  ∀ parameter, lastBound? bindings parameter = lastBound? others parameter

theorem lastBound?_concat (bindings : List (Name × TypeId)) (binding : Name × TypeId)
    (parameter : Name) : lastBound? (bindings ++ [binding]) parameter =
      if binding.1 = parameter then some binding.2 else lastBound? bindings parameter := by
  rw [lastBound?, List.filter_append]
  by_cases same : binding.1 = parameter
  · simp [same]
  · simp [same, lastBound?]

theorem bound?_eq_none (absent : ∀ binding ∈ bindings, binding.1 ≠ parameter) :
    bound? bindings parameter = none := by
  rw [bound?, Option.map_eq_none_iff, List.find?_eq_none]
  simpa using absent

theorem bound?_append (absent : ∀ binding ∈ before, binding.1 ≠ parameter) :
    bound? (before ++ behind) parameter = bound? behind parameter := by
  have unmet : before.find? (·.1 == parameter) = none := by
    rw [List.find?_eq_none]
    simpa using absent
  rw [bound?, List.find?_append, unmet, Option.none_or, bound?]

theorem bound?_cons_self (binding : Name × TypeId) (bindings : List (Name × TypeId)) :
    bound? (binding :: bindings) binding.1 = some binding.2 := by
  simp [bound?]

theorem bound?_cons_of_ne {binding : Name × TypeId} (other : binding.1 ≠ parameter) :
    bound? (binding :: bindings) parameter = bound? bindings parameter := by
  simp [bound?, other]

theorem insertBinding_append (less : ∀ binding ∈ before, binding.1.order parameter = .lt) :
    insertBinding parameter type (before ++ behind) =
      before ++ insertBinding parameter type behind := by
  induction before with
  | nil => rfl
  | cons binding before ih =>
    have greater : parameter.order binding.1 = .gt :=
      Name.order_eq_gt_iff.mpr (less binding List.mem_cons_self)
    simp only [List.cons_append, insertBinding, greater,
      ih fun other inside => less other (List.mem_cons_of_mem _ inside)]

theorem mem_insertBinding {binding : Name × TypeId}
    (inside : binding ∈ insertBinding parameter type bindings) :
    binding = (parameter, type) ∨ binding ∈ bindings := by
  induction bindings with
  | nil => exact .inl (List.mem_singleton.mp inside)
  | cons head rest ih =>
    simp only [insertBinding] at inside
    split at inside
    · exact List.mem_cons.mp inside
    · exact (List.mem_cons.mp inside).imp_right (List.mem_cons_of_mem _)
    · obtain rfl | inside := List.mem_cons.mp inside
      · exact .inr List.mem_cons_self
      · exact (ih inside).imp_right (List.mem_cons_of_mem _)

theorem IsAscending.insertBinding (ascending : IsAscending bindings) :
    IsAscending (insertBinding parameter type bindings) := by
  induction bindings with
  | nil => exact List.pairwise_singleton _ _
  | cons head rest ih =>
    obtain ⟨first, rest_ascending⟩ := List.pairwise_cons.mp ascending
    simp only [Substitutions.insertBinding]
    split
    · next less =>
      refine List.pairwise_cons.mpr ⟨fun binding inside => ?_, ascending⟩
      obtain rfl | inside := List.mem_cons.mp inside
      · exact less
      · exact Name.order_lt_trans less (first binding inside)
    · next equal =>
      rw [Name.order_eq_iff] at equal
      exact List.pairwise_cons.mpr ⟨equal ▸ first, rest_ascending⟩
    · next greater =>
      refine List.pairwise_cons.mpr ⟨fun binding inside => ?_, ih rest_ascending⟩
      obtain rfl | inside := mem_insertBinding inside
      · exact Name.order_eq_gt_iff.mp greater
      · exact first binding inside

/-- The first parameter of ascending bindings is the least one that is bound. -/
theorem IsAscending.head_le {binding : Name × TypeId}
    (ascending : IsAscending (binding :: bindings)) (parameter : Name)
    (bound : bound? (binding :: bindings) parameter ≠ none) :
    binding.1 = parameter ∨ binding.1.order parameter = .lt := by
  by_cases same : binding.1 = parameter
  · exact .inl same
  · rw [bound?_cons_of_ne same] at bound
    by_contra! other
    refine bound (bound?_eq_none fun later inside equal => other.2 ?_)
    exact equal ▸ (List.pairwise_cons.mp ascending).1 later inside

/-- Ascending bindings are known by what they bind. -/
theorem IsAscending.eq_of_bound? (ascending : IsAscending bindings)
    (othersAscending : IsAscending others) (same : ∀ p, bound? bindings p = bound? others p) :
    bindings = others := by
  induction bindings generalizing others with
  | nil =>
    cases others with
    | nil => rfl
    | cons other others =>
      have bound := same other.1
      rw [bound?_cons_self] at bound
      cases bound
  | cons binding bindings ih =>
    cases others with
    | nil =>
      have bound := same binding.1
      rw [bound?_cons_self] at bound
      cases bound
    | cons other others =>
      have here : bound? (binding :: bindings) binding.1 = some binding.2 := bound?_cons_self _ _
      have there : bound? (other :: others) other.1 = some other.2 := bound?_cons_self _ _
      have parameters : binding.1 = other.1 := by
        -- Each of the two is bound by the other list, whose first parameter is not behind it.
        have atMost := othersAscending.head_le binding.1 (by rw [← same, here]; nofun)
        have atLeast := ascending.head_le other.1 (by rw [same, there]; nofun)
        obtain equal | less := atMost
        · exact equal.symm
        · obtain equal | greater := atLeast
          · exact equal
          · exact absurd rfl (Name.ne_of_order_lt (Name.order_lt_trans less greater))
      have types : binding.2 = other.2 := by
        have both := same binding.1
        rw [here, parameters, there] at both
        exact Option.some.inj both
      obtain rfl : binding = other := Prod.ext parameters types
      obtain ⟨first, rest⟩ := List.pairwise_cons.mp ascending
      obtain ⟨otherFirst, otherRest⟩ := List.pairwise_cons.mp othersAscending
      refine congrArg _ (ih rest otherRest fun p => ?_)
      by_cases equal : binding.1 = p
      · subst equal
        rw [bound?_eq_none fun later inside => (Name.ne_of_order_lt (first later inside)).symm,
          bound?_eq_none fun later inside => (Name.ne_of_order_lt (otherFirst later inside)).symm]
      · have both := same p
        rwa [bound?_cons_of_ne equal, bound?_cons_of_ne equal] at both

theorem ofList_concat (bindings : List (Name × TypeId)) (binding : Name × TypeId) :
    (ofList (bindings ++ [binding])).bindings =
      insertBinding binding.1 binding.2 (ofList bindings).bindings := by
  simp only [ofList, List.foldl_append, List.foldl_cons, List.foldl_nil]

theorem ascending_ofList (bindings : List (Name × TypeId)) :
    IsAscending (ofList bindings).bindings := by
  induction bindings using List.reverseRecOn with
  | nil => exact .nil
  | append_singleton bindings binding ih =>
    rw [ofList_concat]
    exact ih.insertBinding

theorem get?_ofList (bindings : List (Name × TypeId)) (parameter : Name) :
    (ofList bindings).get? parameter = lastBound? bindings parameter := by
  induction bindings using List.reverseRecOn with
  | nil => rfl
  | append_singleton bindings binding ih =>
    rw [lastBound?_concat, ← ih, get?, ofList_concat, bound?_insertBinding, get?]

/-- What is collected is equal exactly if the last bindings are. -/
theorem ofList_eq_iff : ofList bindings = ofList others ↔ BindAlike bindings others := by
  constructor
  · intro same parameter
    rw [← get?_ofList, same, get?_ofList]
  · intro same
    refine congrArg mk ((ascending_ofList bindings).eq_of_bound? (ascending_ofList others) ?_)
    intro p
    exact (get?_ofList bindings p).trans ((same p).trans (get?_ofList others p).symm)

def searchBetween (bindings : List (Name × TypeId)) (parameter : Name) (low high : Nat)
    (within : high ≤ bindings.length) : Except Nat Nat :=
  if open_ : low < high then
    let middle := low + (high - low) / 2
    match bindings[middle].1.order parameter with
    | .eq => .ok middle
    | .lt => searchBetween bindings parameter (middle + 1) high within
    | .gt => searchBetween bindings parameter low middle (by omega)
  else .error low
termination_by high - low

def search (bindings : List (Name × TypeId)) (parameter : Name) : Except Nat Nat :=
  searchBetween bindings parameter 0 bindings.length (Nat.le_refl _)

def lookUp (bindings : List (Name × TypeId)) (parameter : Name) : Option TypeId :=
  match search bindings parameter with
  | .ok index => bindings[index]?.map (·.2)
  | .error _ => none

def place (parameter : Name) (type : TypeId) (bindings : List (Name × TypeId)) :
    List (Name × TypeId) :=
  match search bindings parameter with
  | .ok index => bindings.set index (parameter, type)
  | .error index => bindings.insertIdx index (parameter, type)

inductive Finds (parameter : Name) : List (Name × TypeId) → Except Nat Nat → Prop
  | found (before behind : List (Name × TypeId)) (type : TypeId) :
      (∀ binding ∈ before, binding.1.order parameter = .lt) →
      Finds parameter (before ++ (parameter, type) :: behind) (.ok before.length)
  | missed (before behind : List (Name × TypeId)) :
      (∀ binding ∈ before, binding.1.order parameter = .lt) →
      (∀ binding ∈ behind, parameter.order binding.1 = .lt) →
      Finds parameter (before ++ behind) (.error before.length)

/-- An index of ascending bindings splits them into smaller ones and greater ones. -/
theorem IsAscending.around (ascending : IsAscending bindings) {index : Nat}
    (within : index < bindings.length) :
    bindings.take index ++ bindings[index] :: bindings.drop (index + 1) = bindings ∧
      (∀ binding ∈ bindings.take index, binding.1.order bindings[index].1 = .lt) ∧
      ∀ binding ∈ bindings.drop (index + 1), bindings[index].1.order binding.1 = .lt := by
  have split : bindings.take index ++ bindings[index] :: bindings.drop (index + 1) = bindings := by
    rw [← List.drop_eq_getElem_cons within, List.take_append_drop]
  have whole :
      IsAscending (bindings.take index ++ bindings[index] :: bindings.drop (index + 1)) := by
    rw [split]
    exact ascending
  obtain ⟨-, fromIndex, across⟩ := List.pairwise_append.mp whole
  exact ⟨split, fun binding inside => across _ inside _ List.mem_cons_self,
    (List.pairwise_cons.mp fromIndex).1⟩

theorem finds_searchBetween (ascending : IsAscending bindings) {low high : Nat} (order : low ≤ high)
    (within : high ≤ bindings.length)
    (smaller : ∀ binding ∈ bindings.take low, binding.1.order parameter = .lt)
    (greater : ∀ binding ∈ bindings.drop high, parameter.order binding.1 = .lt) :
    Finds parameter bindings (searchBetween bindings parameter low high within) := by
  fun_induction searchBetween bindings parameter low high within with
  | case1 low high within _ middle equal =>
    have inside : middle < bindings.length := by omega
    obtain ⟨split, first, -⟩ := ascending.around inside
    have equal : bindings[middle].1 = parameter := Name.order_eq_iff.mp equal
    have found : Finds bindings[middle].1 _ _ :=
      .found _ (bindings.drop (middle + 1)) bindings[middle].2 first
    rwa [split, List.length_take_of_le (Nat.le_of_lt inside), equal] at found
  | case2 low high within _ middle less ih =>
    have inside : middle < bindings.length := by omega
    obtain ⟨-, first, -⟩ := ascending.around inside
    refine ih (by omega) (fun binding before => ?_) greater
    rw [← List.take_append_getElem inside, List.mem_append, List.mem_singleton] at before
    obtain before | rfl := before
    · exact Name.order_lt_trans (first binding before) less
    · exact less
  | case3 low high within _ middle more ih =>
    have inside : middle < bindings.length := by omega
    obtain ⟨-, -, last⟩ := ascending.around inside
    have more : parameter.order bindings[middle].1 = .lt := Name.order_eq_gt_iff.mp more
    refine ih (by omega) smaller fun binding behind => ?_
    rw [List.drop_eq_getElem_cons inside, List.mem_cons] at behind
    obtain rfl | behind := behind
    · exact more
    · exact Name.order_lt_trans more (last binding behind)
  | case4 low high within closed =>
    obtain rfl : low = high := by omega
    have missed := Finds.missed (bindings.take low) (bindings.drop low) smaller greater
    rwa [List.take_append_drop, List.length_take_of_le within] at missed

theorem finds_search (ascending : IsAscending bindings) (parameter : Name) :
    Finds parameter bindings (search bindings parameter) :=
  finds_searchBetween ascending (Nat.zero_le _) _ (by simp) (by simp)

/-- Halving finds what is bound. -/
theorem lookUp_eq (ascending : IsAscending bindings) (parameter : Name) :
    lookUp bindings parameter = bound? bindings parameter := by
  have finds := finds_search ascending parameter
  unfold lookUp
  generalize search bindings parameter = outcome at finds
  cases finds with
  | found before behind type smaller =>
    have absent : ∀ binding ∈ before, binding.1 ≠ parameter :=
      fun binding inside => Name.ne_of_order_lt (smaller binding inside)
    rw [bound?_append absent, bound?_cons_self]
    simp
  | missed before behind smaller greater =>
    refine (bound?_eq_none fun binding inside => ?_).symm
    obtain inside | inside := List.mem_append.mp inside
    · exact Name.ne_of_order_lt (smaller binding inside)
    · exact (Name.ne_of_order_lt (greater binding inside)).symm

theorem insertBinding_eq_cons (greater : ∀ binding ∈ bindings, parameter.order binding.1 = .lt) :
    insertBinding parameter type bindings = (parameter, type) :: bindings := by
  cases bindings with
  | nil => rfl
  | cons head rest => simp only [insertBinding, greater head List.mem_cons_self]

theorem insertIdx_length_append (before behind : List (Name × TypeId)) (binding : Name × TypeId) :
    (before ++ behind).insertIdx before.length binding = before ++ binding :: behind := by
  induction before with
  | nil => rfl
  | cons head before ih =>
    rw [List.cons_append, List.length_cons, List.insertIdx_succ_cons, ih, List.cons_append]

/-- Halving puts a binding in its place. -/
theorem place_eq (ascending : IsAscending bindings) (parameter : Name) (type : TypeId) :
    place parameter type bindings = insertBinding parameter type bindings := by
  have finds := finds_search ascending parameter
  unfold place
  generalize search bindings parameter = outcome at finds
  cases finds with
  | found before behind bound smaller =>
    have same : parameter.order parameter = .eq := Name.order_eq_iff.mpr rfl
    rw [insertBinding_append smaller]
    simp only [insertBinding, same, List.set_append_right _ _ (Nat.le_refl _), Nat.sub_self,
      List.set_cons_zero]
  | missed before behind smaller greater =>
    rw [insertBinding_append smaller, insertBinding_eq_cons greater]
    exact insertIdx_length_append before behind (parameter, type)

theorem foldl_place (bindings : List (Name × TypeId)) :
    bindings.foldl (fun kept binding => place binding.1 binding.2 kept) [] =
      (ofList bindings).bindings := by
  induction bindings using List.reverseRecOn with
  | nil => rfl
  | append_singleton bindings binding ih =>
    rw [List.foldl_append, List.foldl_cons, List.foldl_nil, ih, ofList_concat,
      place_eq (ascending_ofList bindings)]

/-- Bindings are collected, by halving or from the front, in ascending order, and the last one of
each parameter is found. Collections are equal exactly if the lists bind alike, and so are the
descriptions of types that they are part of, and the types. -/
theorem collect_canonically (bindings : List (Name × TypeId)) :
    IsAscending (ofList bindings).bindings ∧
      bindings.foldl (fun kept binding => place binding.1 binding.2 kept) [] =
        (ofList bindings).bindings ∧
      (∀ parameter, (ofList bindings).get? parameter = lastBound? bindings parameter ∧
        lookUp (ofList bindings).bindings parameter = lastBound? bindings parameter) ∧
      ∀ others,
        (ofList bindings = ofList others ↔ BindAlike bindings others) ∧
        ∀ type : Composite,
          ({ type with substitutions := ofList bindings } =
            { type with substitutions := ofList others } ↔ BindAlike bindings others) ∧
          ∀ bench : Workbench, bench.IsReached → ∀ a b, bench.IsAlive a → bench.IsAlive b →
            a.value = { type with substitutions := ofList bindings } →
            b.value = { type with substitutions := ofList others } →
            (a.identity = b.identity ↔ BindAlike bindings others) := by
  refine ⟨ascending_ofList bindings, foldl_place bindings, fun parameter => ?_, fun others => ?_⟩
  · have got := get?_ofList bindings parameter
    exact ⟨got, (lookUp_eq (ascending_ofList bindings) parameter).trans got⟩
  · refine ⟨ofList_eq_iff, fun type => ?_⟩
    have keys : ({ type with substitutions := ofList bindings } : Composite) =
        { type with substitutions := ofList others } ↔ BindAlike bindings others := by
      rw [← ofList_eq_iff, Composite.mk.injEq]
      exact ⟨fun same => same.2.2.2.2.1, fun same => ⟨rfl, rfl, rfl, rfl, same, rfl⟩⟩
    refine ⟨keys, fun bench reached a b first second valueA valueB => ?_⟩
    have canonical := reached.canonical
    rw [canonical.session.identity_eq_iff (first.storesType canonical)
      (second.storesType canonical), valueA, valueB]
    exact keys

end Substitutions

end IncrementalFrontend
