import IncrementalFrontend.Source.Location

/-!
Positions keep the order of offsets, so spans that nest have locations that nest.
-/
namespace IncrementalFrontend

def Position.IsBefore (a b : Position) : Prop :=
  a.line < b.line ∨ a.line = b.line ∧ a.column < b.column

namespace Position

variable {a b : Position}

theorem isAtMost_iff : a.isAtMost b = true ↔ a = b ∨ a.IsBefore b := by
  obtain ⟨line, column⟩ := a
  obtain ⟨line', column'⟩ := b
  simp only [isAtMost, IsBefore, Bool.or_eq_true, Bool.and_eq_true, decide_eq_true_eq, beq_iff_eq,
    mk.injEq]
  omega

theorem IsBefore.isAtMost (before : a.IsBefore b) : a.isAtMost b = true :=
  isAtMost_iff.mpr (.inr before)

theorem IsBefore.ne (before : a.IsBefore b) : a ≠ b := by
  rintro rfl
  exact before.elim (Nat.lt_irrefl _) fun same => Nat.lt_irrefl _ same.2

end Position

structure Location.IsWithin (inner outer : Location) : Prop where
  path : inner.path = outer.path
  first : outer.first.isAtMost inner.first
  last : inner.last.isAtMost outer.last

namespace LineIndex

section Search

variable {table : Array Nat} {value low high : Nat}

/-- What looking for a value in a table has found: an entry with the value, or that there is none
and how many entries are smaller. -/
def Finds (table : Array Nat) (value : Nat) : Except Nat Nat → Prop
  | .ok index => table[index]? = some value
  | .error next => next ≤ table.size ∧ ∀ index entry, table[index]? = some entry →
      if index < next then entry < value else value < entry

theorem lt_of_getElem? (ascending : table.toList.Pairwise (· < ·)) {i j a b : Nat} (lt : i < j)
    (first : table[i]? = some a) (second : table[j]? = some b) : a < b := by
  obtain ⟨inner, rfl⟩ := Array.getElem?_eq_some_iff.mp first
  obtain ⟨within, rfl⟩ := Array.getElem?_eq_some_iff.mp second
  exact List.pairwise_iff_getElem.mp ascending i j inner within lt

theorem finds_searchBetween (ascending : table.toList.Pairwise (· < ·)) (order : low ≤ high)
    (within : high ≤ table.size)
    (before : ∀ index entry, table[index]? = some entry → index < low → entry < value)
    (behind : ∀ index entry, table[index]? = some entry → high ≤ index → value < entry) :
    Finds table value (searchBetween table value low high within) := by
  fun_induction searchBetween table value low high within with
  | case1 low high within _ middle found => exact found ▸ Array.getElem?_eq_getElem _
  | case2 low high within _ middle other smaller ih =>
    refine ih (by omega) (fun index entry here lt => ?_) behind
    rcases Nat.eq_or_lt_of_le (Nat.le_of_lt_succ lt) with rfl | lt
    · exact Option.some.inj (here.symm.trans (Array.getElem?_eq_getElem _)) ▸ smaller
    · exact Nat.lt_trans (lt_of_getElem? ascending lt here (Array.getElem?_eq_getElem _)) smaller
  | case3 low high within _ middle other larger ih =>
    refine ih (by omega) before fun index entry here le => ?_
    have larger : value < table[middle] := by omega
    rcases Nat.eq_or_lt_of_le le with rfl | lt
    · exact Option.some.inj (here.symm.trans (Array.getElem?_eq_getElem _)) ▸ larger
    · exact Nat.lt_trans larger (lt_of_getElem? ascending lt (Array.getElem?_eq_getElem _) here)
  | case4 low high within closed =>
    refine ⟨by omega, fun index entry here => ?_⟩
    split
    · next lt => exact before index entry here lt
    · next le => exact behind index entry here (by omega)

theorem finds_search (ascending : table.toList.Pairwise (· < ·)) (value : Nat) :
    Finds table value (search table value) :=
  finds_searchBetween ascending (Nat.zero_le _) _ (fun _ _ _ lt => absurd lt (Nat.not_lt_zero _))
    fun index entry here le => absurd (Array.getElem?_eq_none le) (by simp [here])

end Search

variable (lines : LineIndex) {path : Name} {a b : Nat} {inner outer : Span}

/-- The miss of a search is behind the first line, which starts every text. -/
theorem pos_of_miss {offset next : Nat} (miss : search lines.starts offset = .error next) :
    0 < next := by
  have found := finds_search lines.ascending offset
  rw [miss] at found
  have first := found.2 0 0 lines.first
  split at first
  · assumption
  · exact absurd first (Nat.not_lt_zero _)

/-- The line of an offset starts at or before it, and the next lines start behind it. -/
theorem lineOf_spec (offset : Nat) : ∃ start, lines.starts[lines.lineOf offset]? = some start ∧
    start ≤ offset ∧ ∀ line later, lines.starts[line]? = some later →
      lines.lineOf offset < line → offset < later := by
  have found := finds_search lines.ascending offset
  unfold lineOf
  cases same : search lines.starts offset with
  | ok line =>
    rw [same] at found
    exact ⟨offset, found, Nat.le_refl _,
      fun _ _ later lt => lt_of_getElem? lines.ascending lt found later⟩
  | error next =>
    have positive := lines.pos_of_miss same
    rw [same] at found
    have within : next - 1 < lines.starts.size := by have := found.1; omega
    refine ⟨_, Array.getElem?_eq_getElem within, ?_, fun line later here lt => ?_⟩
    · have smaller := found.2 _ _ (Array.getElem?_eq_getElem within)
      rw [if_pos (by omega)] at smaller
      exact Nat.le_of_lt smaller
    · have larger := found.2 _ _ here
      have lt : next - 1 < line := lt
      rwa [if_neg (by omega)] at larger

theorem startOf_eq {line start : Nat} (here : lines.starts[line]? = some start) :
    lines.startOf line = start := by
  rw [startOf, here, Option.getD_some]

theorem isBefore_position (lt : a < b) : (lines.position a).IsBefore (lines.position b) := by
  obtain ⟨start, here, le, -⟩ := lines.lineOf_spec a
  obtain ⟨start', here', le', behind⟩ := lines.lineOf_spec b
  have order : lines.lineOf a ≤ lines.lineOf b := Nat.le_of_not_lt fun more => by
    have := behind _ _ here more
    omega
  simp only [Position.IsBefore, position, lines.startOf_eq here, lines.startOf_eq here']
  rcases Nat.eq_or_lt_of_le order with same | fewer
  · -- both offsets are in the same line
    rw [same, here'] at here
    cases here
    omega
  · omega

theorem position_injective : Function.Injective lines.position := by
  intro a b same
  rcases Nat.lt_trichotomy a b with lt | same | lt
  · exact absurd same (lines.isBefore_position lt).ne
  · assumption
  · exact absurd same.symm (lines.isBefore_position lt).ne

theorem isAtMost_position (le : a ≤ b) : (lines.position a).isAtMost (lines.position b) := by
  rcases Nat.eq_or_lt_of_le le with rfl | lt
  · exact Position.isAtMost_iff.mpr (.inl rfl)
  · exact (lines.isBefore_position lt).isAtMost

/-- A location ends where it starts or later. -/
theorem isAtMost_location (path : Name) (span : Span) :
    (lines.location path span).first.isAtMost (lines.location path span).last :=
  lines.isAtMost_position (Nat.le_max_right ..)

/-- A span that is part of another one is located within it. -/
theorem isWithin_location (filled : inner.start < inner.stop) (first : outer.start ≤ inner.start)
    (last : inner.stop ≤ outer.stop) :
    (lines.location path inner).IsWithin (lines.location path outer) :=
  ⟨rfl, lines.isAtMost_position first, lines.isAtMost_position (by omega)⟩

theorem isBefore_location (lt : inner.start < outer.start) :
    (lines.location path inner).first.IsBefore (lines.location path outer).first :=
  lines.isBefore_position lt

end LineIndex

end IncrementalFrontend
