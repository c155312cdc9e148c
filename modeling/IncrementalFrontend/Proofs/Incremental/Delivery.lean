import Mathlib.Data.List.Forall2
import Mathlib.Logic.Relation
import IncrementalFrontend.Proofs.Incremental.Slots

/-!
In which order diagnostics are delivered. A walk goes depth first over what was read, and delivers
each query after the queries it read, once.
-/
namespace IncrementalFrontend

/-- A depth-first walk from pending items that leaves out those visited before. It delivers items
in an order, each with diagnostics of its own after those of the items below it. -/
inductive Walk {α : Type} (step : α → List α → List Diagnostic → Prop) :
    List α → List α → List α → List Diagnostic → Prop
  | done {visited : List α} : Walk step visited [] [] []
  | seen {visited pending order : List α} {item : α} {diagnostics : List Diagnostic} :
      item ∈ visited → Walk step visited pending order diagnostics →
        Walk step visited (item :: pending) order diagnostics
  | visit {visited pending below inner order : List α} {item : α}
      {own first last : List Diagnostic} :
      item ∉ visited → step item below own → Walk step (item :: visited) below inner first →
        Walk step (inner ++ item :: visited) pending order last →
        Walk step visited (item :: pending) (inner ++ item :: order) (first ++ (own ++ last))

namespace Walk

variable {α : Type} {step : α → List α → List Diagnostic → Prop}
  {visited pending order : List α} {diagnostics : List Diagnostic}

theorem unique {order' : List α} {diagnostics' : List Diagnostic}
    (walk : Walk step visited pending order diagnostics)
    (walk' : Walk step visited pending order' diagnostics')
    (functional : ∀ {item below below' own own'}, step item below own → step item below' own' →
      below = below' ∧ own = own') : order = order' ∧ diagnostics = diagnostics' := by
  induction walk generalizing order' diagnostics' with
  | done =>
    cases walk'
    exact ⟨rfl, rfl⟩
  | seen member _ ih =>
    cases walk' with
    | seen _ walk' => exact ih walk'
    | visit fresh => exact absurd member fresh
  | visit fresh stepped _ _ ih ih' =>
    cases walk' with
    | seen member => exact absurd member fresh
    | visit _ stepped' below' rest' =>
      obtain ⟨rfl, rfl⟩ := functional stepped stepped'
      obtain ⟨rfl, rfl⟩ := ih below'
      obtain ⟨rfl, rfl⟩ := ih' rest'
      exact ⟨rfl, rfl⟩

/-- The walk delivers each item once, and none that was visited before. -/
theorem nodup (walk : Walk step visited pending order diagnostics) :
    order.Nodup ∧ ∀ item ∈ order, item ∉ visited := by
  induction walk with
  | done => simp
  | seen _ _ ih => exact ih
  | @visit visited pending below inner order item own first last fresh _ _ _ ih ih' =>
    obtain ⟨innerNodup, innerFresh⟩ := ih
    obtain ⟨restNodup, restFresh⟩ := ih'
    constructor
    · refine List.nodup_append.mpr ⟨innerNodup, List.nodup_cons.mpr ⟨?_, restNodup⟩, ?_⟩
      · exact fun member => restFresh item member (by simp)
      · rintro other inside _ later rfl
        obtain rfl | later := List.mem_cons.mp later
        · exact innerFresh other inside (by simp)
        · exact restFresh other later (by simp [inside])
    · intro other member visitedBefore
      obtain inside | later := List.mem_append.mp member
      · exact innerFresh other inside (by simp [visitedBefore])
      · obtain rfl | later := List.mem_cons.mp later
        · exact fresh visitedBefore
        · exact restFresh other later (by simp [visitedBefore])

theorem mem_of_pending (walk : Walk step visited pending order diagnostics) {item : α}
    (member : item ∈ pending) : item ∈ order ∨ item ∈ visited := by
  induction walk with
  | done => simp at member
  | seen here _ ih =>
    obtain rfl | later := List.mem_cons.mp member
    · exact .inr here
    · exact ih later
  | visit _ _ _ _ _ ih' =>
    obtain rfl | later := List.mem_cons.mp member
    · exact .inl (by simp)
    · obtain inside | before := ih' later
      · exact .inl (by simp [inside])
      · simp only [List.mem_append, List.mem_cons] at before ⊢
        tauto

theorem forall₂ (walk : Walk step visited pending order diagnostics) :
    ∃ parts, diagnostics = parts.flatten ∧
      List.Forall₂ (fun item own => ∃ below, step item below own) order parts := by
  induction walk with
  | done => exact ⟨[], rfl, .nil⟩
  | seen _ _ ih => exact ih
  | @visit _ _ below _ _ _ own _ _ _ stepped _ _ ih ih' =>
    obtain ⟨before, rfl, first⟩ := ih
    obtain ⟨after, rfl, last⟩ := ih'
    exact ⟨before ++ own :: after, by simp, List.rel_append first (.cons ⟨below, stepped⟩ last)⟩

variable {below : α → α → Prop}

theorem reached (walk : Walk step visited pending order diagnostics)
    (exact : ∀ {item inner own}, step item inner own → ∀ other, below item other ↔ other ∈ inner) :
    ∀ item ∈ order, ∃ start ∈ pending, Relation.ReflTransGen below start item := by
  induction walk with
  | done => simp
  | seen _ _ ih =>
    intro other member
    obtain ⟨start, pending, path⟩ := ih other member
    exact ⟨start, List.mem_cons_of_mem _ pending, path⟩
  | @visit _ _ _ _ _ item _ _ _ _ stepped _ _ ih ih' =>
    intro other member
    obtain inside | later := List.mem_append.mp member
    · obtain ⟨start, member, path⟩ := ih other inside
      exact ⟨item, by simp, .head ((exact stepped start).mpr member) path⟩
    · obtain rfl | later := List.mem_cons.mp later
      · exact ⟨other, by simp, .refl⟩
      · obtain ⟨start, pending, path⟩ := ih' other later
        exact ⟨start, List.mem_cons_of_mem _ pending, path⟩

/-- Without cycles, the walk delivers each item after the items below it. What was visited before is
delivered already, or waits for the pending items. -/
theorem ordered (walk : Walk step visited pending order diagnostics)
    (exact : ∀ {item inner own}, step item inner own → ∀ other, below item other ↔ other ∈ inner)
    (acyclic : ∀ {item inner own}, step item inner own → ¬ Relation.TransGen below item item)
    (delivered : List α) (above : ∀ item ∈ visited, item ∈ delivered ∨
      ∀ other ∈ pending, Relation.TransGen below item other)
    {before after : List α} {item : α} (split : order = before ++ item :: after) {other : α}
    (reads : below item other) : other ∈ delivered ∨ other ∈ before := by
  induction walk generalizing delivered before after with
  | done => simp at split
  | seen member _ ih =>
    refine ih delivered (fun upper visited => ?_) split
    exact (above upper visited).imp_right fun leads other pending =>
      leads other (List.mem_cons_of_mem _ pending)
  | @visit visited pending inner order rest current own first last fresh stepped walk _ ih ih' =>
    have waits : ∀ upper ∈ visited, upper ∈ delivered ∨ Relation.TransGen below upper current :=
      fun upper member => (above upper member).imp_right fun leads => leads current (by simp)
    have inside {before after : List α} (split : order = before ++ item :: after) :
        other ∈ delivered ∨ other ∈ before := by
      refine ih delivered (fun upper member => ?_) split
      obtain rfl | member := List.mem_cons.mp member
      · exact .inr fun other member => .single ((exact stepped other).mpr member)
      · exact (waits upper member).imp_right fun leads other member =>
          leads.tail ((exact stepped other).mpr member)
    have later {before after : List α} (split : rest = before ++ item :: after) :
        other ∈ order ++ current :: delivered ∨ other ∈ before := by
      refine ih' _ (fun upper member => ?_) split
      simp only [List.mem_append, List.mem_cons] at member ⊢
      obtain here | rfl | member := member
      · exact .inl (.inl here)
      · exact .inl (.inr (.inl rfl))
      · obtain here | leads := above upper member
        · exact .inl (.inr (.inr here))
        · exact .inr fun other pending => leads other (List.mem_cons_of_mem _ pending)
    have here (same : item = current) : other ∈ delivered ∨ other ∈ order := by
      subst same
      obtain member | member := walk.mem_of_pending ((exact stepped other).mp reads)
      · exact .inr member
      · obtain rfl | member := List.mem_cons.mp member
        · exact absurd (.single reads) (acyclic stepped)
        · obtain member | leads := waits other member
          · exact .inl member
          · exact absurd (.head reads leads) (acyclic stepped)
    obtain ⟨more, rfl, tail⟩ | ⟨more, rfl, tail⟩ := List.append_eq_append_iff.mp split
    · cases more with
      | nil =>
        rw [List.append_nil]
        exact here (List.cons.inj tail).1.symm
      | cons head more =>
        obtain ⟨rfl, final⟩ := List.cons.inj tail
        have := later final
        simp only [List.mem_append, List.mem_cons] at this ⊢
        tauto
    · cases more with
      | nil =>
        rw [List.append_nil] at here
        exact here (List.cons.inj tail).1
      | cons head more =>
        obtain ⟨rfl, -⟩ := List.cons.inj tail
        exact inside rfl

theorem mem_iff {root : α} (walk : Walk step [] [root] order diagnostics)
    (exact : ∀ {item inner own}, step item inner own → ∀ other, below item other ↔ other ∈ inner)
    (acyclic : ∀ {item inner own}, step item inner own → ¬ Relation.TransGen below item item)
    (item : α) : item ∈ order ↔ Relation.ReflTransGen below root item := by
  constructor
  · intro member
    obtain ⟨start, pending, path⟩ := walk.reached exact item member
    obtain rfl := List.mem_singleton.mp pending
    exact path
  · intro path
    induction path with
    | refl =>
      exact (walk.mem_of_pending (List.mem_singleton_self root)).resolve_right List.not_mem_nil
    | tail _ reads ih =>
      obtain ⟨before, after, split⟩ := List.append_of_mem ih
      obtain member | member := walk.ordered exact acyclic [] (by simp) split reads
      · simp at member
      · rw [split]
        exact List.mem_append_left _ member

end Walk

namespace Cache

variable {S : Signature} {cache : Cache S}

theorem deliveries_seen {memo : Memo S} {slot : Nat} {unvisited : List Nat}
    (here : cache.memo? slot = some memo) (visited : slot ∉ unvisited) (pending : List Delivery) :
    cache.deliveries unvisited (.visit slot :: pending) = cache.deliveries unvisited pending := by
  rw [deliveries]
  simp [here, visited]

theorem deliveries_visit {memo : Memo S} {slot : Nat} {unvisited : List Nat}
    (here : cache.memo? slot = some memo) (fresh : slot ∈ unvisited) (pending : List Delivery) :
    cache.deliveries unvisited (.visit slot :: pending) =
      cache.deliveries (unvisited.erase slot)
        (memo.entry.dependencies.map .visit ++ .deliver slot :: pending) := by
  rw [deliveries]
  simp [here, fresh, dependencies]

theorem deliveries_deliver {memo : Memo S} {slot : Nat} (here : cache.memo? slot = some memo)
    (unvisited : List Nat) (pending : List Delivery) :
    cache.deliveries unvisited (.deliver slot :: pending) =
      (cache.deliveries unvisited pending).map (memo.entry.diagnostics ++ ·) := by
  rw [deliveries]
  simp [here]

theorem map_append_append (outcome : Except QueryError (List Diagnostic))
    (first last : List Diagnostic) :
    (outcome.map (last ++ ·)).map (first ++ ·) = outcome.map ((first ++ last) ++ ·) := by
  cases outcome <;> simp [Except.map]

def Describes (cache : Cache S) (step : S.Query → List S.Query → List Diagnostic → Prop)
    (known : Nat → Prop) : Prop :=
  ∀ slot, known slot → ∃ query entry below, cache.memo? slot = some ⟨query, entry⟩ ∧
    step query below entry.diagnostics ∧ entry.dependencies.map cache.query? = below.map some ∧
    ∀ dependency ∈ entry.dependencies, known dependency

structure Unvisited (cache : Cache S) (slots : List Nat) (visited : List S.Query) : Prop where
  nodup : slots.Nodup
  mem_iff : ∀ {slot query}, cache.query? slot = some query → (slot ∈ slots ↔ query ∉ visited)

theorem Unvisited.erase {slots : List Nat} {visited : List S.Query}
    (unvisited : cache.Unvisited slots visited) (sound : cache.WellFormed) {slot : Nat}
    {query : S.Query} (here : cache.query? slot = some query) :
    cache.Unvisited (slots.erase slot) (query :: visited) where
  nodup := unvisited.nodup.erase slot
  mem_iff {place other} there := by
    rw [unvisited.nodup.mem_erase_iff, List.mem_cons, not_or, unvisited.mem_iff there]
    refine and_congr_left fun _ => not_congr ?_
    constructor
    · rintro rfl
      exact Option.some.inj (there.symm.trans here)
    · rintro rfl
      exact sound.unique there here

theorem Unvisited.congr {slots : List Nat} {visited visited' : List S.Query}
    (unvisited : cache.Unvisited slots visited)
    (same : ∀ query, query ∈ visited ↔ query ∈ visited') :
    cache.Unvisited slots visited' where
  nodup := unvisited.nodup
  mem_iff here := (unvisited.mem_iff here).trans (not_congr (same _))

/-- Walking over slots delivers what the walk over their queries says. -/
theorem deliveries_eq {step : S.Query → List S.Query → List Diagnostic → Prop} {known : Nat → Prop}
    (sound : cache.WellFormed) (knows : cache.Describes step known) (size : Nat) {slots : List Nat}
    {visited : List S.Query} {pending : List Nat} {queries : List S.Query}
    (bound : slots.length < size) (unvisited : cache.Unvisited slots visited)
    (within : ∀ slot ∈ pending, known slot)
    (assigned : pending.map cache.query? = queries.map some) :
    ∃ order diagnostics left, Walk step visited queries order diagnostics ∧
      left.length ≤ slots.length ∧ cache.Unvisited left (order ++ visited) ∧
      ∀ rest, cache.deliveries slots (pending.map .visit ++ rest) =
        (cache.deliveries left rest).map (diagnostics ++ ·) := by
  -- The outer induction is on the unvisited slots, the inner one on the pending ones.
  induction size generalizing slots visited pending queries with
  | zero => exact absurd bound (Nat.not_lt_zero _)
  | succ size ih =>
    induction pending generalizing slots visited queries with
    | nil =>
      obtain rfl := List.map_eq_nil_iff.mp assigned.symm
      refine ⟨[], [], slots, .done, Nat.le_refl _, unvisited, fun rest => ?_⟩
      cases outcome : cache.deliveries slots rest <;> simp [outcome, Except.map]
    | cons slot pending ihPending =>
      obtain ⟨query, queries, rfl, found, assigned⟩ := List.map_eq_cons_iff.mp assigned.symm
      obtain ⟨query', entry, below, here, stepped, dependencies, closed⟩ :=
        knows slot (within slot (by simp))
      have assignedHere := query?_eq here
      rw [← found] at assignedHere
      cases assignedHere
      have later := fun slot member => within slot (List.mem_cons_of_mem _ member)
      by_cases before : query ∈ visited
      · have seen : slot ∉ slots := fun member => (unvisited.mem_iff found.symm).mp member before
        obtain ⟨order, diagnostics, left, walk, fewer, rest, equal⟩ :=
          ihPending bound unvisited later assigned.symm
        refine ⟨order, diagnostics, left, .seen before walk, fewer, rest, fun more => ?_⟩
        rw [List.map_cons, List.cons_append, deliveries_seen here seen, equal]
      · have fresh : slot ∈ slots := (unvisited.mem_iff found.symm).mpr before
        have erased := List.length_erase_of_mem fresh
        have nonempty := List.length_pos_of_mem fresh
        obtain ⟨inner, first, middle, walk, fewer, rest, equal⟩ :=
          ih (by omega) (unvisited.erase sound found.symm) closed dependencies
        obtain ⟨order, last, left, walk', fewer', rest', equal'⟩ :=
          ihPending (by omega) rest later assigned.symm
        refine ⟨inner ++ query :: order, first ++ (entry.diagnostics ++ last), left,
          .visit before stepped walk walk', by omega, rest'.congr fun other => ?_, fun more => ?_⟩
        · simp only [List.mem_append, List.mem_cons]
          tauto
        · rw [List.map_cons, List.cons_append, deliveries_visit here fresh, equal,
            deliveries_deliver here, equal', map_append_append, map_append_append,
            List.append_assoc]

theorem diagnosticsBelow_eq (step : S.Query → List S.Query → List Diagnostic → Prop)
    (known : Nat → Prop) (sound : cache.WellFormed) (knows : cache.Describes step known)
    {slot : Nat} {query : S.Query} (knownSlot : known slot)
    (here : cache.query? slot = some query) :
    ∃ order diagnostics, Walk step [] [query] order diagnostics ∧
      cache.diagnosticsBelow slot = .ok diagnostics := by
  have unvisited : cache.Unvisited cache.liveSlots [] := by
    refine ⟨nodup_liveSlots cache, fun here => ?_⟩
    obtain ⟨entry, here⟩ := memo?_of_query? here
    simp [mem_liveSlots, here]
  obtain ⟨order, diagnostics, left, walk, -, -, equal⟩ := deliveries_eq sound knows
    (cache.liveSlots.length + 1) (Nat.lt_succ_self _) unvisited
    (List.forall_mem_singleton.mpr knownSlot) (by rw [List.map_singleton, here, List.map_singleton])
  refine ⟨order, diagnostics, walk, ?_⟩
  have delivered : cache.diagnosticsBelow slot = _ := equal []
  rw [delivered, deliveries]
  simp [Except.map]

end Cache

end IncrementalFrontend
