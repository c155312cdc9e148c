import Mathlib.Data.List.Nodup
import Mathlib.Data.List.Perm.Subperm
import IncrementalFrontend.Incremental.Cache

/-!
Where memos are. In a well-formed cache each query has at most one slot, and the free slots are
the empty ones; every change of a cache keeps this.
-/
namespace IncrementalFrontend

namespace Cache

variable {S : Signature} {cache : Cache S} {slot other : Nat} {query : S.Query}

def query? (cache : Cache S) (slot : Nat) : Option S.Query :=
  (cache.memo? slot).map (·.query)

structure WellFormed (cache : Cache S) : Prop where
  unique : ∀ {slot other query}, cache.query? slot = some query → cache.query? other = some query →
    slot = other
  nodup_free : cache.free.Nodup
  mem_free : ∀ {slot}, slot ∈ cache.free ↔ slot < cache.slots.size ∧ cache.memo? slot = none

theorem query?_eq {entry : Entry S query} (here : cache.memo? slot = some ⟨query, entry⟩) :
    cache.query? slot = some query := by
  simp [query?, here]

theorem memo?_of_query? (here : cache.query? slot = some query) :
    ∃ entry, cache.memo? slot = some ⟨query, entry⟩ := by
  obtain ⟨⟨other, entry⟩, found, rfl⟩ := Option.map_eq_some_iff.mp here
  exact ⟨entry, found⟩

theorem lt_size {memo : Memo S} (here : cache.memo? slot = some memo) :
    slot < cache.slots.size := by
  by_contra outside
  simp [memo?, Array.getElem?_eq_none (Nat.le_of_not_lt outside)] at here

theorem nodup_liveSlots (cache : Cache S) : cache.liveSlots.Nodup :=
  List.nodup_range.filter _

theorem entry?_eq_some_iff {entry : Entry S query} :
    cache.entry? slot query = some entry ↔ cache.memo? slot = some ⟨query, entry⟩ := by
  unfold entry?
  cases found : cache.memo? slot with
  | none => simp
  | some memo =>
    obtain ⟨other, known⟩ := memo
    by_cases same : other = query
    · subst same
      simp [Memo.entryOf?]
    · simp only [Option.bind_some, Memo.entryOf?, same, dite_false, reduceCtorEq, false_iff]
      intro equal
      exact same (congrArg Memo.query (Option.some.inj equal))

theorem memo?_of_find? {entry : Entry S query} (found : cache.find? query = some (slot, entry)) :
    cache.memo? slot = some ⟨query, entry⟩ := by
  obtain ⟨i, -, here⟩ := List.exists_of_findSome?_eq_some found
  obtain ⟨known, atSlot, equal⟩ := Option.map_eq_some_iff.mp here
  cases equal
  exact entry?_eq_some_iff.mp atSlot

theorem query?_ne_of_find? (absent : cache.find? query = none) (slot : Nat) :
    cache.query? slot ≠ some query := by
  intro here
  obtain ⟨entry, here⟩ := memo?_of_query? here
  have := List.findSome?_eq_none_iff.mp absent slot (List.mem_range.mpr (lt_size here))
  rw [entry?_eq_some_iff.mpr here] at this
  simp at this

namespace WellFormed

theorem find?_eq (sound : cache.WellFormed) {entry : Entry S query}
    (here : cache.memo? slot = some ⟨query, entry⟩) : cache.find? query = some (slot, entry) := by
  cases found : cache.find? query with
  | none => exact absurd (query?_eq here) (query?_ne_of_find? found slot)
  | some result =>
    obtain ⟨i, known⟩ := result
    have atFound := memo?_of_find? found
    have same := sound.unique (query?_eq atFound) (query?_eq here)
    subst same
    rw [here] at atFound
    cases atFound
    rfl

end WellFormed

theorem memo?_put_of_live {old new : Memo S} (live : cache.memo? slot = some old) (other : Nat) :
    (cache.put slot new).memo? other = if other = slot then some new else cache.memo? other := by
  rw [memo?_put]
  simp only [lt_size live, and_true, eq_comm]

theorem query?_put_of_live {old new : Memo S} (live : cache.memo? slot = some old)
    (same : new.query = old.query) (other : Nat) :
    (cache.put slot new).query? other = cache.query? other := by
  unfold query?
  rw [memo?_put_of_live live]
  split
  · rename_i equal
    simp [equal, live, same]
  · rfl

theorem WellFormed.put (sound : cache.WellFormed) {old new : Memo S}
    (live : cache.memo? slot = some old) (same : new.query = old.query) :
    (cache.put slot new).WellFormed where
  unique first second := by
    rw [query?_put_of_live live same] at first second
    exact sound.unique first second
  nodup_free := sound.nodup_free
  mem_free {other} := by
    rw [memo?_put_of_live live]
    show other ∈ cache.free ↔ other < (cache.slots.setIfInBounds slot (some new)).size ∧ _
    rw [sound.mem_free, Array.size_setIfInBounds]
    by_cases equal : other = slot
    · simp [equal, live]
    · simp [equal]

theorem verify_eq {memo : Memo S} (live : cache.memo? slot = some memo) (revision : Revision) :
    cache.verify slot revision =
      cache.put slot ⟨memo.query, { memo.entry with verifiedAt := revision }⟩ := by
  simp [verify, live]

def newMemo (query : S.Query) (origin : Origin) (revision : Revision) : Memo S :=
  ⟨query, none, origin, revision, revision, [], [], 0⟩

theorem WellFormed.insert_slot (sound : cache.WellFormed) (query : S.Query) (origin : Origin)
    (revision : Revision) : cache.memo? (cache.insert query origin revision).1 = none := by
  unfold insert
  cases free : cache.free with
  | nil => simp [memo?]
  | cons slot rest => exact (sound.mem_free.mp (by simp [free])).2

theorem WellFormed.memo?_insert (sound : cache.WellFormed) (query : S.Query) (origin : Origin)
    (revision : Revision) (other : Nat) :
    (cache.insert query origin revision).2.memo? other =
      if other = (cache.insert query origin revision).1 then some (newMemo query origin revision)
      else cache.memo? other := by
  unfold insert
  cases free : cache.free with
  | nil =>
    by_cases equal : other = cache.slots.size
    · simp [memo?, equal, newMemo]
    · simp only [memo?, Array.getElem?_push, equal, if_false]
  | cons slot rest =>
    have inside := (sound.mem_free.mp (show slot ∈ cache.free by simp [free])).1
    rw [memo?_put]
    simp only [inside, and_true, eq_comm (a := slot), newMemo]
    rfl

theorem WellFormed.memo?_insert_self (sound : cache.WellFormed) (query : S.Query) (origin : Origin)
    (revision : Revision) :
    (cache.insert query origin revision).2.memo? (cache.insert query origin revision).1 =
      some (newMemo query origin revision) :=
  (sound.memo?_insert ..).trans (if_pos rfl)

theorem WellFormed.memo?_insert_of_ne (sound : cache.WellFormed) {query : S.Query} {origin : Origin}
    {revision : Revision} {other : Nat} (different : other ≠ (cache.insert query origin revision).1) :
    (cache.insert query origin revision).2.memo? other = cache.memo? other :=
  (sound.memo?_insert ..).trans (if_neg different)

/-- The new slot is none of those in use. -/
theorem WellFormed.insert_ne_of_live (sound : cache.WellFormed) {other : Nat} {memo : Memo S}
    (live : cache.memo? other = some memo) (query : S.Query) (origin : Origin)
    (revision : Revision) : (cache.insert query origin revision).1 ≠ other := by
  rintro rfl
  cases (sound.insert_slot query origin revision).symm.trans live

theorem WellFormed.insert (sound : cache.WellFormed)
    (absent : ∀ slot, cache.query? slot ≠ some query)
    (origin : Origin) (revision : Revision) :
    (cache.insert query origin revision).2.WellFormed where
  unique {slot other found} first second := by
    simp only [query?, sound.memo?_insert] at first second
    split at first <;> split at second
    · simp_all
    · cases first
      exact absurd second (absent other)
    · cases second
      exact absurd first (absent slot)
    · exact sound.unique first second
  nodup_free := by
    have := sound.nodup_free
    unfold Cache.insert
    cases free : cache.free with
    | nil => simp
    | cons slot rest =>
      rw [free] at this
      exact (List.nodup_cons.mp this).2
  mem_free {other} := by
    rw [sound.memo?_insert]
    have inFree : other ∈ cache.free ↔ _ := sound.mem_free
    have := sound.nodup_free
    unfold Cache.insert
    cases free : cache.free with
    | nil =>
      simp only [free, List.not_mem_nil, false_iff, Array.size_push] at inFree ⊢
      split
      · simp
      · intro ⟨inside, empty⟩
        exact inFree ⟨by omega, empty⟩
    | cons slot rest =>
      rw [free] at this inFree
      simp only [List.mem_cons] at inFree
      show other ∈ rest ↔ other < (cache.slots.setIfInBounds _ _).size ∧ _
      rw [Array.size_setIfInBounds]
      by_cases equal : other = slot
      · simpa [equal] using (List.nodup_cons.mp this).1
      · simpa [equal] using inFree

theorem size_put (cache : Cache S) (slot : Nat) (memo : Memo S) :
    (cache.put slot memo).size = cache.size := by
  simp [put, Cache.size]

theorem counts_insert (cache : Cache S) (query : S.Query) (origin : Origin) (revision : Revision) :
    (cache.insert query origin revision).2.counts = cache.counts := by
  unfold Cache.insert
  split <;> rfl

/-- A query that gets a slot adds to the number of memos. -/
theorem WellFormed.size_insert (sound : cache.WellFormed) (query : S.Query) (origin : Origin)
    (revision : Revision) : (cache.insert query origin revision).2.size = cache.size + 1 := by
  unfold Cache.insert
  cases free : cache.free with
  | nil => simp [Cache.size, free]
  | cons slot rest =>
    have fits := (List.subperm_of_subset sound.nodup_free fun slot member =>
      List.mem_range.mpr (sound.mem_free.mp member).1).length_le
    simp only [size_put]
    simp only [Cache.size, free, List.length_cons, List.length_range] at fits ⊢
    omega

theorem memo?_evict (cache : Cache S) (slots : List Nat) (other : Nat) :
    (cache.evict slots).memo? other = if other ∈ slots then none else cache.memo? other := by
  show ((slots.foldl (·.setIfInBounds · none) cache.slots)[other]?).join = _
  unfold memo?
  generalize cache.slots = memos
  induction slots generalizing memos with
  | nil => simp
  | cons slot rest ih =>
    rw [List.foldl_cons, ih]
    by_cases later : other ∈ rest
    · simp [later]
    · by_cases equal : other = slot
      · subst equal
        by_cases inside : other < memos.size <;> simp [later, inside]
      · simp [later, equal, Ne.symm equal]

theorem size_evict (cache : Cache S) (slots : List Nat) :
    (cache.evict slots).slots.size = cache.slots.size := by
  show (slots.foldl (·.setIfInBounds · none) cache.slots).size = _
  generalize cache.slots = memos
  induction slots generalizing memos with
  | nil => rfl
  | cons slot rest ih => rw [List.foldl_cons, ih, Array.size_setIfInBounds]

theorem WellFormed.evict (sound : cache.WellFormed) {slots : List Nat} (nodup : slots.Nodup)
    (live : ∀ slot ∈ slots, (cache.memo? slot).isSome) : (cache.evict slots).WellFormed where
  unique {slot other found} first second := by
    simp only [query?, memo?_evict] at first second
    split at first <;> split at second <;> simp_all
    exact sound.unique (by simpa [query?] using first) (by simpa [query?] using second)
  nodup_free := by
    refine List.nodup_append.mpr ⟨List.nodup_reverse.mpr nodup, sound.nodup_free, ?_⟩
    rintro slot member _ free rfl
    have := live slot (List.mem_reverse.mp member)
    simp [(sound.mem_free.mp free).2] at this
  mem_free {other} := by
    rw [memo?_evict, size_evict]
    show other ∈ slots.reverse ++ cache.free ↔ _
    rw [List.mem_append, List.mem_reverse, sound.mem_free]
    by_cases member : other ∈ slots
    · obtain ⟨memo, here⟩ := Option.isSome_iff_exists.mp (live other member)
      simp [member, lt_size here]
    · simp [member]

theorem unreached_subset (cache : Cache S) (candidates pending : List Nat) :
    ∀ slot ∈ cache.unreached candidates pending, slot ∈ candidates := by
  fun_induction unreached cache candidates pending with
  | case1 candidates => simp
  | case2 candidates slot pending member ih =>
    intro other reached
    exact List.mem_of_mem_erase (ih other reached)
  | case3 candidates slot pending absent ih => exact ih

/-- What is not unreached is closed under dependencies, and holds all that was pending. -/
theorem unreached_closed (cache : Cache S) (candidates pending : List Nat)
    (nodup : candidates.Nodup) :
    (∀ slot ∈ pending, slot ∉ cache.unreached candidates pending) ∧
      ∀ slot ∈ candidates, slot ∉ cache.unreached candidates pending →
        ∀ dependency ∈ cache.dependencies slot,
          dependency ∉ cache.unreached candidates pending := by
  fun_induction unreached cache candidates pending with
  | case1 candidates => exact ⟨by simp, fun _ member gone => absurd member gone⟩
  | case2 candidates slot pending member ih =>
    obtain ⟨visited, closed⟩ := ih (nodup.erase slot)
    have gone : slot ∉
        cache.unreached (candidates.erase slot) (cache.dependencies slot ++ pending) :=
      fun reached => (List.Nodup.not_mem_erase nodup) (unreached_subset _ _ _ _ reached)
    refine ⟨?_, ?_⟩
    · intro other here
      obtain rfl | later := List.mem_cons.mp here
      · exact gone
      · exact visited other (List.mem_append_right _ later)
    · intro other here reached dependency read
      by_cases equal : other = slot
      · subst equal
        exact visited dependency (List.mem_append_left _ read)
      · exact closed other ((List.mem_erase_of_ne equal).mpr here) reached dependency read
  | case3 candidates slot pending absent ih =>
    obtain ⟨visited, closed⟩ := ih nodup
    refine ⟨?_, closed⟩
    intro other here
    obtain rfl | later := List.mem_cons.mp here
    · exact fun reached => absent (unreached_subset _ _ _ _ reached)
    · exact visited other later

end Cache

end IncrementalFrontend
