import IncrementalFrontend.Proofs.Incremental.Slots
import IncrementalFrontend.Proofs.Incremental.Tables

/-!
The parts of a cache stay in step. Each slot is either free or known to the table of one kind, in
which the maps are inverse to each other, so that the parts together are a cache of memos.
-/
namespace IncrementalFrontend

variable {S : Signature} {kinds : Kinds S} {kind other : kinds.Kind} {index : Nat}

/-- Caches are known by their memos. -/
theorem Cache.ext_memo? {a b : Cache S} (size : a.slots.size = b.slots.size)
    (memos : ∀ slot, a.memo? slot = b.memo? slot) (free : a.free = b.free)
    (counts : a.counts = b.counts) : a = b := by
  obtain ⟨slots, _, _⟩ := a
  obtain ⟨slots', _, _⟩ := b
  cases free
  cases counts
  have same : slots = slots' := by
    refine Array.ext size fun slot inside inside' => ?_
    have here := memos slot
    rwa [memo?, memo?, Array.getElem?_eq_getElem inside, Array.getElem?_eq_getElem inside'] at here
  rw [same]

namespace Kinds.Table

variable {table : kinds.Table kind} {key : kinds.Key kind} {entry : kinds.TableEntry kind}

theorem lookup_insert {α β : Type} [DecidableEq α] (map : AList fun _ : α => β) (a b : α)
    (value : β) : (map.insert a value).lookup b = if b = a then some value else map.lookup b := by
  split
  · next same => rw [same, AList.lookup_insert]
  · next differ => rw [AList.lookup_insert_ne differ]

theorem lookup_erase {α β : Type} [DecidableEq α] (map : AList fun _ : α => β) (a b : α) :
    (map.erase a).lookup b = if b = a then none else map.lookup b := by
  split
  · next same => rw [same, AList.lookup_erase]
  · next differ => rw [AList.lookup_erase_ne differ]

def key? (table : kinds.Table kind) (index : Nat) : Option (kinds.Key kind) :=
  (table.entries.lookup index).map (·.key)

def IsInverse (table : kinds.Table kind) : Prop :=
  ∀ key index, table.indices.lookup key = some index ↔ table.key? index = some key

theorem isInverse_empty : (empty : kinds.Table kind).IsInverse := by
  intro key index
  simp [empty, key?]

theorem entries_add (table : kinds.Table kind) (key : kinds.Key kind) (index other : Nat) :
    (table.add key index).entries.lookup other =
      if other = index then some ⟨key, none⟩ else table.entries.lookup other :=
  lookup_insert ..

theorem entries_setEntry (table : kinds.Table kind) (index other : Nat)
    (entry : kinds.TableEntry kind) : (table.setEntry index entry).entries.lookup other =
      if other = index then some entry else table.entries.lookup other :=
  lookup_insert ..

theorem remove_eq (here : table.entries.lookup index = some entry) :
    table.remove index = ⟨table.indices.erase entry.key, table.entries.erase index⟩ := by
  simp only [remove, here]

theorem entries_remove (here : table.entries.lookup index = some entry) (other : Nat) :
    (table.remove index).entries.lookup other =
      if other = index then none else table.entries.lookup other := by
  rw [remove_eq here]
  exact lookup_erase ..

namespace IsInverse

theorem add (inverse : table.IsInverse) (absent : table.indices.lookup key = none)
    (unoccupied : table.entries.lookup index = none) : (table.add key index).IsInverse := by
  intro other slot
  have keyMap : (table.add key index).indices.lookup other =
      if other = key then some index else table.indices.lookup other := lookup_insert ..
  have known : table.indices.lookup other = some slot ↔ table.key? slot = some other :=
    inverse other slot
  rw [keyMap, key?, entries_add]
  by_cases sameKey : other = key <;> by_cases sameSlot : slot = index
  · simp [sameKey, sameSlot]
  · subst sameKey
    rw [if_pos rfl, if_neg sameSlot]
    rw [absent] at known
    constructor
    · intro same
      exact absurd (Option.some.inj same).symm sameSlot
    · intro here
      cases known.mpr here
  · subst sameSlot
    rw [key?, unoccupied] at known
    rw [if_neg sameKey, if_pos rfl, known]
    simp [Ne.symm sameKey]
  · rw [if_neg sameKey, if_neg sameSlot, known, key?]

/-- A query may get another value. -/
theorem setEntry (inverse : table.IsInverse) (here : table.entries.lookup index = some entry)
    (value : Option (Shared (S.Value entry.key))) :
    (table.setEntry index ⟨entry.key, value⟩).IsInverse := by
  intro key slot
  have known : table.indices.lookup key = some slot ↔ table.key? slot = some key :=
    inverse key slot
  show table.indices.lookup key = some slot ↔ _
  rw [known, key?, key?, entries_setEntry]
  by_cases same : slot = index
  · subst same
    simp [here]
  · simp [same]

theorem remove (inverse : table.IsInverse) (here : table.entries.lookup index = some entry) :
    (table.remove index).IsInverse := by
  intro key slot
  have keyMap : (table.remove index).indices.lookup key =
      if key = entry.key then none else table.indices.lookup key := by
    rw [remove_eq here]
    exact lookup_erase ..
  have known : table.indices.lookup key = some slot ↔ table.key? slot = some key :=
    inverse key slot
  have removed : table.indices.lookup entry.key = some index := by
    rw [inverse, key?, here]
    rfl
  rw [keyMap, key?, entries_remove here]
  by_cases sameKey : key = entry.key <;> by_cases sameSlot : slot = index
  · simp [sameKey, sameSlot]
  · subst sameKey
    rw [if_pos rfl, if_neg sameSlot]
    rw [removed] at known
    constructor
    · intro none
      cases none
    · intro same
      exact absurd (Option.some.inj (known.mpr same)).symm sameSlot
  · subst sameSlot
    rw [key?, here] at known
    rw [if_neg sameKey, if_pos rfl, known]
    simp [Ne.symm sameKey]
  · rw [if_neg sameKey, if_neg sameSlot, known, key?]

end IsInverse

end Kinds.Table

namespace Storage

variable {storage after : Storage kinds} {slot : Slot kinds}

def content (storage : Storage kinds) (kind : kinds.Kind) : kinds.Table kind :=
  match storage.table? kind with
  | .ok (some table) => table
  | .ok none => .empty
  | .error _ => .empty

def IsTyped (storage : Storage kinds) : Prop :=
  ∀ kind table, storage.tables.lookup kind = some table → table.1 = kind

theorem ofKind?_mk (table : kinds.Table kind) :
    Kinds.AnyTable.ofKind? (⟨kind, table⟩ : kinds.AnyTable) kind = some table := by
  simp [Kinds.AnyTable.ofKind?]

theorem IsTyped.table?_eq (typed : storage.IsTyped) (kind : kinds.Kind) :
    storage.table? kind = .ok none ∧ storage.content kind = .empty ∨
      storage.table? kind = .ok (some (storage.content kind)) := by
  cases here : storage.tables.lookup kind with
  | none =>
    left
    simp only [content, table?, here, and_self]
  | some table =>
    obtain ⟨held, table⟩ := table
    obtain rfl : held = kind := typed kind _ here
    right
    simp only [content, table?, here, ofKind?_mk]

theorem IsTyped.openTable_eq (typed : storage.IsTyped) (kind : kinds.Kind) :
    storage.openTable kind = .ok (storage.content kind) := by
  unfold openTable
  obtain ⟨here, empty⟩ | here := typed.table?_eq kind
  · rw [here, empty]
    rfl
  · rw [here]
    rfl

theorem IsTyped.putTable (typed : storage.IsTyped) (table : kinds.Table kind) :
    (storage.putTable table).IsTyped := by
  intro other found here
  have here : (storage.tables.insert kind ⟨kind, table⟩).lookup other = some found := here
  rw [Kinds.Table.lookup_insert] at here
  split at here
  · next same =>
    cases here
    exact same.symm
  · exact typed other found here

theorem content_putTable (storage : Storage kinds) (table : kinds.Table kind) :
    (storage.putTable table).content kind = table := by
  have here : (storage.putTable table).tables.lookup kind = some ⟨kind, table⟩ :=
    AList.lookup_insert _
  simp only [content, table?, here, ofKind?_mk]

theorem content_putTable_of_ne (storage : Storage kinds) (table : kinds.Table kind)
    (differ : other ≠ kind) : (storage.putTable table).content other = storage.content other := by
  have same : (storage.putTable table).tables.lookup other = storage.tables.lookup other :=
    AList.lookup_insert_ne differ
  simp only [content, table?, same]

theorem content_congr {after : Storage kinds} (tables : after.tables = storage.tables)
    (kind : kinds.Kind) : after.content kind = storage.content kind := by
  simp only [content, table?, tables]

def index? (storage : Storage kinds) (key : kinds.Key kind) : Option Nat :=
  (storage.content kind).indices.lookup key

def known? (storage : Storage kinds) (kind : kinds.Kind) (index : Nat) :
    Option (kinds.TableEntry kind) :=
  (storage.content kind).entries.lookup index

end Storage

def SlotState.memo (state : SlotState) (entry : kinds.TableEntry kind) : Memo S :=
  ⟨entry.key, entry.value, state.origin, state.changedAt, state.verifiedAt, state.dependencies,
    state.diagnostics, state.executions⟩

namespace Storage

variable {storage after : Storage kinds} {slot : Slot kinds}

def memo? (storage : Storage kinds) (index : Nat) : Option (Memo S) :=
  (storage.slot? index).bind fun slot => (storage.known? slot.kind index).map slot.memo

def view (storage : Storage kinds) : Cache S :=
  ⟨(Array.range storage.slots.size).map storage.memo?, storage.free, storage.counts⟩

theorem lt_size (live : storage.slot? index = some slot) : index < storage.slots.size := by
  by_contra outside
  simp [slot?, Array.getElem?_eq_none (Nat.le_of_not_lt outside)] at live

theorem size_view (storage : Storage kinds) : storage.view.slots.size = storage.slots.size := by
  simp [view]

theorem memo?_view (storage : Storage kinds) (index : Nat) :
    storage.view.memo? index = storage.memo? index := by
  unfold view Cache.memo?
  by_cases inside : index < storage.slots.size
  · simp [inside]
  · simp [inside, memo?, slot?]

theorem slot?_putSlot (storage : Storage kinds) (index other : Nat) (slot : Option (Slot kinds)) :
    (storage.putSlot index slot).slot? other =
      if other = index ∧ index < storage.slots.size then slot else storage.slot? other := by
  unfold putSlot slot?
  by_cases same : other = index
  · subst same
    by_cases inside : other < storage.slots.size <;> simp [inside]
  · simp [same, Ne.symm same]

theorem known?_putTable_of_eq (storage : Storage kinds) {table : kinds.Table kind}
    (same : table.entries.lookup index = storage.known? kind index) (other : kinds.Kind) :
    (storage.putTable table).known? other index = storage.known? other index := by
  by_cases here : other = kind
  · subst here
    rw [known?, content_putTable, same]
  · rw [known?, content_putTable_of_ne storage table here, known?]

theorem inverse_putTable {table : kinds.Table kind}
    (inverse : ∀ kind, (storage.content kind).IsInverse) (isInverse : table.IsInverse)
    (other : kinds.Kind) : ((storage.putTable table).content other).IsInverse := by
  by_cases here : other = kind
  · subst here
    rwa [content_putTable]
  · rw [content_putTable_of_ne storage table here]
    exact inverse other

def Occupied (storage : Storage kinds) (index : Nat) : Prop :=
  ∀ kind, (storage.known? kind index).isSome ↔
    ∃ slot, storage.slot? index = some slot ∧ slot.kind = kind

def Flagged (storage : Storage kinds) (index : Nat) : Prop :=
  ∀ slot entry, storage.slot? index = some slot → storage.known? slot.kind index = some entry →
    slot.hasValue = entry.value.isSome

structure InStep (storage : Storage kinds) : Prop where
  wellFormed : storage.view.WellFormed
  typed : storage.IsTyped
  inverse : ∀ kind, (storage.content kind).IsInverse
  occupied : ∀ index, storage.Occupied index
  flagged : ∀ index, storage.Flagged index

theorem inStep_empty : (empty : Storage kinds).InStep where
  wellFormed := ⟨by simp [memo?_view, Cache.query?, memo?, slot?, empty], by simp [view, empty],
    by simp [view, empty]⟩
  typed := nofun
  inverse kind := Kinds.Table.isInverse_empty
  occupied index kind := by simp [known?, content, table?, slot?, empty, Kinds.Table.empty]
  flagged index slot entry live := by simp [slot?, empty] at live

structure ChangesOnly (storage : Storage kinds) (index : Nat) (after : Storage kinds) : Prop where
  slot? : ∀ other, other ≠ index → after.slot? other = storage.slot? other
  known? : ∀ other, other ≠ index → ∀ kind, after.known? kind other = storage.known? kind other

theorem ChangesOnly.memo? (only : storage.ChangesOnly index after) {other : Nat}
    (differ : other ≠ index) : after.memo? other = storage.memo? other := by
  rw [Storage.memo?, only.slot? other differ, Storage.memo?]
  cases storage.slot? other with
  | none => rfl
  | some slot => simp only [Option.bind_some, only.known? other differ]

namespace InStep

theorem change (inStep : storage.InStep) (only : storage.ChangesOnly index after)
    (wellFormed : after.view.WellFormed) (typed : after.IsTyped)
    (inverse : ∀ kind, (after.content kind).IsInverse) (occupied : after.Occupied index)
    (flagged : after.Flagged index) : after.InStep where
  wellFormed := wellFormed
  typed := typed
  inverse := inverse
  occupied other := by
    by_cases same : other = index
    · exact same ▸ occupied
    · intro kind
      rw [only.slot? other same, only.known? other same]
      exact inStep.occupied other kind
  flagged other := by
    by_cases same : other = index
    · exact same ▸ flagged
    · intro slot entry
      rw [only.slot? other same, only.known? other same]
      exact inStep.flagged other slot entry

theorem exists_entry (inStep : storage.InStep) (live : storage.slot? index = some slot) :
    ∃ entry, storage.known? slot.kind index = some entry :=
  Option.isSome_iff_exists.mp ((inStep.occupied index slot.kind).mpr ⟨slot, live, rfl⟩)

theorem exists_slot (inStep : storage.InStep) {entry : kinds.TableEntry kind}
    (here : storage.known? kind index = some entry) :
    ∃ slot, storage.slot? index = some slot ∧ slot.kind = kind :=
  (inStep.occupied index kind).mp (by rw [here]; rfl)

theorem memo?_eq (inStep : storage.InStep) (live : storage.slot? index = some slot) :
    ∃ entry, storage.known? slot.kind index = some entry ∧
      storage.view.memo? index = some (slot.memo entry) := by
  obtain ⟨entry, here⟩ := inStep.exists_entry live
  refine ⟨entry, here, ?_⟩
  simp [memo?_view, memo?, live, here]

theorem memo?_of_known? (inStep : storage.InStep) {entry : kinds.TableEntry kind}
    (here : storage.known? kind index = some entry) : ∃ slot, storage.slot? index = some slot ∧
      slot.kind = kind ∧ storage.view.memo? index = some (slot.memo entry) := by
  obtain ⟨slot, live, rfl⟩ := inStep.exists_slot here
  obtain ⟨_, same, memo⟩ := inStep.memo?_eq live
  obtain rfl : entry = _ := Option.some.inj (here.symm.trans same)
  exact ⟨slot, live, rfl, memo⟩

theorem memo?_eq_none_iff (inStep : storage.InStep) :
    storage.view.memo? index = none ↔ storage.slot? index = none := by
  constructor
  · intro absent
    cases live : storage.slot? index with
    | none => rfl
    | some slot =>
      obtain ⟨entry, -, here⟩ := inStep.memo?_eq live
      rw [here] at absent
      cases absent
  · intro absent
    simp [memo?_view, memo?, absent]

theorem known?_eq_none (inStep : storage.InStep) (absent : storage.slot? index = none)
    (kind : kinds.Kind) : storage.known? kind index = none := by
  cases here : storage.known? kind index with
  | none => rfl
  | some entry =>
    obtain ⟨slot, live, -⟩ := inStep.exists_slot here
    rw [absent] at live
    cases live

theorem known?_of_ne (inStep : storage.InStep) (live : storage.slot? index = some slot)
    (differ : other ≠ slot.kind) : storage.known? other index = none := by
  rw [← Option.not_isSome_iff_eq_none, inStep.occupied index other, live]
  rintro ⟨_, ⟨⟩, same⟩
  exact differ same.symm

end InStep

structure Rewrites (storage : Storage kinds) (index : Nat) (slot : Option (Slot kinds))
    (table : kinds.Table kind) (entry : Option (kinds.TableEntry kind)) (after : Storage kinds) :
    Prop where
  slot? : ∀ other, after.slot? other = if other = index then slot else storage.slot? other
  content : ∀ other, after.content other = (storage.putTable table).content other
  entries : ∀ other, table.entries.lookup other =
    if other = index then entry else storage.known? kind other

namespace Rewrites

variable {new : Option (Slot kinds)} {table : kinds.Table kind}
  {entry : Option (kinds.TableEntry kind)}

theorem slot?_self (rewrites : storage.Rewrites index new table entry after) :
    after.slot? index = new :=
  (rewrites.slot? index).trans (if_pos rfl)

theorem known?_self (rewrites : storage.Rewrites index new table entry after) :
    after.known? kind index = entry := by
  rw [known?, rewrites.content, content_putTable, rewrites.entries, if_pos rfl]

theorem known?_of_ne (rewrites : storage.Rewrites index new table entry after)
    (differ : other ≠ kind) : after.known? other index = storage.known? other index := by
  rw [known?, rewrites.content, content_putTable_of_ne storage table differ, known?]

theorem changesOnly (rewrites : storage.Rewrites index new table entry after) :
    storage.ChangesOnly index after := by
  refine ⟨fun other differ => (rewrites.slot? other).trans (if_neg differ),
    fun other differ kind => ?_⟩
  rw [known?, rewrites.content]
  exact known?_putTable_of_eq storage ((rewrites.entries other).trans (if_neg differ)) kind

theorem inverse (rewrites : storage.Rewrites index new table entry after)
    (inStep : storage.InStep) (isInverse : table.IsInverse) (kind : kinds.Kind) :
    (after.content kind).IsInverse := by
  rw [rewrites.content]
  exact inverse_putTable inStep.inverse isInverse kind

/-- A slot of the kind has an entry in the table of the kind, and there was none in others. -/
theorem occupied (rewrites : storage.Rewrites index new table entry after)
    (unknown : ∀ other, other ≠ kind → storage.known? other index = none)
    (ofKind : ∀ slot, new = some slot → slot.kind = kind) (fits : new.isSome = entry.isSome) :
    after.Occupied index := by
  intro other
  rw [rewrites.slot?_self]
  by_cases isHere : other = kind
  · subst isHere
    rw [rewrites.known?_self, ← fits, Option.isSome_iff_exists]
    exact exists_congr fun slot => ⟨fun here => ⟨here, ofKind slot here⟩, And.left⟩
  · rw [rewrites.known?_of_ne isHere, unknown other isHere]
    constructor
    · intro known
      cases known
    · rintro ⟨slot, here, same⟩
      exact absurd (same.symm.trans (ofKind slot here)) isHere

end Rewrites

theorem slot?_putSlot_of_live (live : storage.slot? index = some slot) (new : Option (Slot kinds))
    (other : Nat) : (storage.putSlot index new).slot? other =
      if other = index then new else storage.slot? other := by
  simp only [slot?_putSlot, lt_size live, and_true]

/-- A memo is replaced. -/
theorem ChangesOnly.view_put (only : storage.ChangesOnly index after)
    (size : after.slots.size = storage.slots.size) (free : after.free = storage.free)
    (counts : after.counts = storage.counts) {old new : Memo S}
    (before : storage.view.memo? index = some old) (now : after.memo? index = some new) :
    after.view = storage.view.put index new := by
  refine Cache.ext_memo? ?_ (fun other => ?_) free counts
  · rw [size_view, size, Cache.put, Array.size_setIfInBounds, size_view]
  · rw [memo?_view, Cache.memo?_put_of_live before, memo?_view]
    split
    · next same => rw [same, now]
    · next differ => exact only.memo? differ

namespace InStep

/-- What a slot tells may change. -/
theorem update (inStep : storage.InStep) (live : storage.slot? index = some slot)
    (change : SlotState → SlotState) : ∃ entry after,
      storage.known? slot.kind index = some entry ∧
      storage.update index change = (.ok (), after) ∧ after.InStep ∧
      after.view = storage.view.put index ((change slot.toSlotState).memo entry) := by
  obtain ⟨entry, here, memo⟩ := inStep.memo?_eq live
  let new : Slot kinds := { slot with toSlotState := change slot.toSlotState }
  let after := storage.putSlot index (some new)
  have updated : storage.update index change = (.ok (), after) := by
    simp only [Storage.update, live, after, new]
  have slots (other : Nat) : after.slot? other =
      if other = index then some new else storage.slot? other :=
    slot?_putSlot_of_live live (some new) other
  have now := (slots index).trans (if_pos rfl)
  have only : storage.ChangesOnly index after :=
    ⟨fun other differ => (slots other).trans (if_neg differ), fun _ _ _ => rfl⟩
  have memoNow : after.memo? index = some (new.memo entry) := by
    simp only [Storage.memo?, now, Option.bind_some]
    exact congrArg _ here
  have viewed := only.view_put (Array.size_setIfInBounds ..) rfl rfl memo memoNow
  refine ⟨entry, after, here, updated, inStep.change only ?_ inStep.typed inStep.inverse ?_ ?_,
    viewed⟩
  · rw [viewed]
    exact inStep.wellFormed.put memo rfl
  · intro kind
    rw [now]
    refine (inStep.occupied index kind).trans ?_
    simp [live, new]
  · intro changed found same
    rw [now] at same
    cases same
    exact inStep.flagged index slot found live

/-- A query gets a value. -/
theorem setValue (inStep : storage.InStep) {entry : kinds.TableEntry kind}
    (here : storage.known? kind index = some entry)
    (value : (key : kinds.Key kind) → Shared (S.Value key)) : ∃ slot after,
      storage.slot? index = some slot ∧ slot.kind = kind ∧
      storage.setValue kind index value = (.ok (), after) ∧ after.InStep ∧
      ∀ memo : Entry S entry.key, storage.view.memo? index = some ⟨entry.key, memo⟩ →
        after.view =
          storage.view.put index ⟨entry.key, { memo with value := some (value entry.key) }⟩ := by
  obtain ⟨slot, live, rfl, memo⟩ := inStep.memo?_of_known? here
  let new : kinds.TableEntry slot.kind := ⟨entry.key, some (value entry.key)⟩
  let table := (storage.content slot.kind).setEntry index new
  let after := (storage.putTable table).putSlot index (some { slot with hasValue := true })
  have stays : (storage.putTable table).slot? index = some slot := live
  have stored : storage.setValue slot.kind index value = (.ok (), after) := by
    have found : (storage.content slot.kind).entries.lookup index = some entry := here
    simp only [Storage.setValue, inStep.typed.openTable_eq, found, stays, after, table, new]
  have rewrites :
      storage.Rewrites index (some { slot with hasValue := true }) table (some new) after :=
    ⟨slot?_putSlot_of_live stays _, fun _ => rfl, fun _ => Kinds.Table.entries_setEntry ..⟩
  have memoNow : after.memo? index = some (slot.memo new) := by
    simp only [Storage.memo?, rewrites.slot?_self, Option.bind_some, rewrites.known?_self,
      Option.map_some]
  have viewed := rewrites.changesOnly.view_put (Array.size_setIfInBounds ..) rfl rfl memo memoNow
  refine ⟨slot, after, live, rfl, stored, inStep.change rewrites.changesOnly ?_
    (inStep.typed.putTable _)
    (rewrites.inverse inStep ((inStep.inverse slot.kind).setEntry here _))
    (rewrites.occupied (fun _ => inStep.known?_of_ne live) ?_ rfl) ?_, ?_⟩
  · rw [viewed]
    exact inStep.wellFormed.put memo rfl
  · rintro _ ⟨⟩
    rfl
  · intro changed found sameSlot sameEntry
    cases rewrites.slot?_self.symm.trans sameSlot
    cases rewrites.known?_self.symm.trans sameEntry
    rfl
  · intro known same
    rw [memo] at same
    cases same
    exact viewed

/-- There is no query to get a value. -/
theorem setValue_missing (inStep : storage.InStep) (absent : storage.known? kind index = none)
    (value : (key : kinds.Key kind) → Shared (S.Value key)) : ∃ after,
      storage.setValue kind index value = (.error (.missingSlot index), after) ∧ after.InStep ∧
      after.view = storage.view := by
  have opened : storage.setValue kind index value =
      (.error (.missingSlot index), storage.putTable (storage.content kind)) := by
    rw [known?] at absent
    simp only [Storage.setValue, inStep.typed.openTable_eq, absent]
  have entries (slot : Nat) := known?_putTable_of_eq storage
    (rfl : (storage.content kind).entries.lookup slot = storage.known? kind slot)
  have only : storage.ChangesOnly index (storage.putTable (storage.content kind)) :=
    ⟨fun _ _ => rfl, fun other _ kind => entries other kind⟩
  have viewed : (storage.putTable (storage.content kind)).view = storage.view := by
    refine Cache.ext_memo? ?_ (fun other => ?_) rfl rfl
    · rw [size_view, size_view]
      rfl
    · rw [memo?_view, memo?_view, Storage.memo?, Storage.memo?]
      simp only [entries]
      rfl
  refine ⟨_, opened, inStep.change only ?_ (inStep.typed.putTable _)
    (inverse_putTable inStep.inverse (inStep.inverse kind)) ?_ ?_, viewed⟩
  · rw [viewed]
    exact inStep.wellFormed
  · intro kind
    rw [entries]
    exact inStep.occupied index kind
  · intro slot entry
    rw [entries]
    exact inStep.flagged index slot entry

/-- A query has the index of its memo. -/
theorem index?_eq_some_iff (inStep : storage.InStep) {key : kinds.Key kind} :
    storage.index? key = some index ↔ storage.view.query? index = some key.1 := by
  rw [index?, inStep.inverse kind key index, Kinds.Table.key?, Option.map_eq_some_iff,
    Cache.query?, Option.map_eq_some_iff]
  constructor
  · rintro ⟨entry, here, rfl⟩
    obtain ⟨slot, -, -, memo⟩ := inStep.memo?_of_known? here
    exact ⟨_, memo, rfl⟩
  · rintro ⟨memo, here, same⟩
    rw [memo?_view, Storage.memo?, Option.bind_eq_some_iff] at here
    obtain ⟨slot, live, here⟩ := here
    obtain ⟨entry, entered, rfl⟩ := Option.map_eq_some_iff.mp here
    have same : entry.key.1 = key.1 := same
    obtain rfl : slot.kind = kind := by rw [← entry.key.2, same, key.2]
    exact ⟨entry, entered, Subtype.ext same⟩

theorem index?_eq_none_iff (inStep : storage.InStep) {key : kinds.Key kind} :
    storage.index? key = none ↔ storage.view.find? key.1 = none := by
  constructor
  · intro absent
    cases found : storage.view.find? key.1 with
    | none => rfl
    | some result =>
      have here := inStep.index?_eq_some_iff.mpr (Cache.query?_eq (Cache.memo?_of_find? found))
      rw [absent] at here
      cases here
  · intro absent
    cases here : storage.index? key with
    | none => rfl
    | some index =>
      exact absurd (inStep.index?_eq_some_iff.mp here) (Cache.query?_ne_of_find? absent index)

/-- A query is found where it has its memo. -/
theorem lookup_eq (inStep : storage.InStep) (query : S.Query) :
    storage.lookup query = .ok ((storage.view.find? query).map fun (index, entry) =>
      ⟨index, entry.value.map (⟨⟨query, rfl⟩, ·⟩), entry.origin, entry.verifiedAt⟩) := by
  cases here : storage.index? (⟨query, rfl⟩ : kinds.Key (kinds.kindOf query)) with
  | none =>
    rw [inStep.index?_eq_none_iff.mp here, Storage.lookup]
    obtain ⟨opened, -⟩ | opened := inStep.typed.table?_eq (kinds.kindOf query)
    · rw [opened]
      rfl
    · rw [index?] at here
      simp only [opened, here, bind, Except.bind]
      rfl
  | some index =>
    have known := inStep.index?_eq_some_iff.mp here
    rw [index?] at here
    obtain ⟨-, empty⟩ | opened := inStep.typed.table?_eq (kinds.kindOf query)
    · simp [empty, Kinds.Table.empty] at here
    · obtain ⟨⟨key, value⟩, entered, same⟩ := Option.map_eq_some_iff.mp
        ((inStep.inverse _ _ index).mp here)
      obtain rfl : key = ⟨query, rfl⟩ := same
      obtain ⟨slot, live, -, memo⟩ := inStep.memo?_of_known? entered
      have slotOk : storage.slot index = .ok slot := by simp only [Storage.slot, live]
      have entryOk : (storage.content (kinds.kindOf query)).entry index =
          .ok ⟨⟨query, rfl⟩, value⟩ := by
        simp only [Kinds.Table.entry, entered]
      have found : storage.view.find? query = some (index, _) := inStep.wellFormed.find?_eq memo
      rw [found, Storage.lookup]
      simp only [opened, here, slotOk, entryOk, bind, Except.bind]
      rfl

/-- A new slot is an emptied one or the next one. -/
theorem place_spec (inStep : storage.InStep) (query : S.Query) (origin : Origin)
    (revision : Revision) {new : Slot kinds} {placed : Storage kinds}
    (here : storage.place new = some (index, placed)) :
    placed.tables = storage.tables ∧ storage.slot? index = none ∧
      (∀ other, placed.slot? other = if other = index then some new else storage.slot? other) ∧
      (storage.view.insert query origin revision).1 = index ∧
      (storage.view.insert query origin revision).2.slots.size = placed.slots.size ∧
      (storage.view.insert query origin revision).2.free = placed.free ∧
      (storage.view.insert query origin revision).2.counts = placed.counts := by
  unfold Storage.place at here
  unfold Cache.insert
  have viewFree : storage.view.free = storage.free := rfl
  cases free : storage.free with
  | cons slot rest =>
    rw [free] at here
    obtain ⟨rfl, rfl⟩ := Prod.mk.inj (Option.some.inj here)
    obtain ⟨inside, empty⟩ := inStep.wellFormed.mem_free.mp
      (show slot ∈ storage.view.free by rw [viewFree, free]; exact List.mem_cons_self)
    rw [size_view] at inside
    refine ⟨rfl, inStep.memo?_eq_none_iff.mp empty, fun other => ?_, ?_⟩
    · rw [slot?_putSlot]
      simp only [inside, and_true]
      rfl
    · rw [viewFree, free]
      refine ⟨rfl, ?_, rfl, rfl⟩
      simp [Cache.put, putSlot, view]
  | nil =>
    rw [free] at here
    simp only [Option.ite_none_right_eq_some] at here
    obtain ⟨-, here⟩ := here
    obtain ⟨rfl, rfl⟩ := Prod.mk.inj (Option.some.inj here)
    refine ⟨rfl, by simp [slot?], fun other => ?_, ?_⟩
    · simp only [slot?, Array.getElem?_push]
      split <;> rfl
    · rw [viewFree, free]
      refine ⟨size_view storage, ?_, rfl, rfl⟩
      rw [Array.size_push, Array.size_push, size_view]

/-- A query gets a slot. -/
theorem insert (inStep : storage.InStep) {query : S.Query}
    (absent : storage.lookup query = .ok none) {origin : Origin} {revision : Revision}
    (inserted : storage.insert query origin revision = (.ok index, after)) :
    after.InStep ∧ storage.view.insert query origin revision = (index, after.view) := by
  have unknown : storage.view.find? query = none := by
    rw [inStep.lookup_eq, Except.ok.injEq, Option.map_eq_none_iff] at absent
    exact absent
  have keyless : storage.index? (⟨query, rfl⟩ : kinds.Key (kinds.kindOf query)) = none :=
    inStep.index?_eq_none_iff.mpr unknown
  unfold Storage.insert at inserted
  split at inserted
  · cases inserted
  next slot placed here =>
  obtain ⟨tables, emptied, slots, first, size, free, counts⟩ :=
    inStep.place_spec query origin revision here
  have contents := content_congr tables
  have typed : placed.IsTyped := by
    intro kind
    rw [tables]
    exact inStep.typed kind
  rw [typed.openTable_eq, contents] at inserted
  obtain ⟨same, rfl⟩ := Prod.mk.inj inserted
  obtain rfl : slot = index := Except.ok.inj same
  -- No table knows the slot that is taken, so the new entry is the only one for it.
  generalize changed : (storage.content (kinds.kindOf query)).add ⟨query, rfl⟩ slot = table
  have rewrites : storage.Rewrites slot
      (some ⟨⟨origin, revision, revision, [], [], 0⟩, false, kinds.kindOf query⟩) table
      (some ⟨⟨query, rfl⟩, none⟩) (placed.putTable table) := by
    refine ⟨slots, fun other => ?_, fun other => changed ▸ Kinds.Table.entries_add ..⟩
    by_cases isHere : other = kinds.kindOf query
    · subst isHere
      rw [content_putTable, content_putTable]
    · rw [content_putTable_of_ne placed table isHere, content_putTable_of_ne storage table isHere,
        contents]
  have viewed : (storage.view.insert query origin revision).2 = (placed.putTable table).view := by
    refine Cache.ext_memo? (size.trans (size_view (placed.putTable table)).symm) (fun other => ?_)
      free counts
    rw [inStep.wellFormed.memo?_insert, first, memo?_view, memo?_view]
    split
    · next same =>
      simp only [same, Storage.memo?, rewrites.slot?_self, Option.bind_some, rewrites.known?_self,
        Option.map_some]
      rfl
    · next differ => exact (rewrites.changesOnly.memo? differ).symm
  refine ⟨inStep.change rewrites.changesOnly ?_ (typed.putTable table)
    (rewrites.inverse inStep ?_)
    (rewrites.occupied (fun _ _ => inStep.known?_eq_none emptied _) ?_ rfl) ?_,
    Prod.ext first viewed⟩
  · rw [← viewed]
    exact inStep.wellFormed.insert (Cache.query?_ne_of_find? unknown) origin revision
  · rw [← changed]
    exact (inStep.inverse _).add keyless (inStep.known?_eq_none emptied _)
  · rintro _ ⟨⟩
    rfl
  · intro new entry sameSlot sameEntry
    cases rewrites.slot?_self.symm.trans sameSlot
    cases rewrites.known?_self.symm.trans sameEntry
    rfl

/-- A query gets no slot if there is no index left, and then nothing changes. -/
theorem insert_error (inStep : storage.InStep) {query : S.Query} {origin : Origin}
    {revision : Revision} {error : QueryError}
    (failed : storage.insert query origin revision = (.error error, after)) :
    after = storage ∧ error = .missingSlot maxIndex ∧ storage.free = [] ∧
      maxIndex < storage.slots.size := by
  unfold Storage.insert at failed
  split at failed
  · next here =>
    obtain ⟨same, rfl⟩ := Prod.mk.inj failed
    obtain rfl := Except.error.inj same
    unfold place at here
    split at here
    · cases here
    · next free =>
      exact ⟨rfl, rfl, free, by simpa using here⟩
  · next slot placed here =>
    have tables := (inStep.place_spec query origin revision here).1
    have typed : placed.IsTyped := by
      intro kind
      rw [tables]
      exact inStep.typed kind
    rw [typed.openTable_eq] at failed
    cases failed

/-- A slot is emptied. -/
theorem release (inStep : storage.InStep) (live : storage.slot? index = some slot) (count : Nat) :
    ∃ after, Storage.release index (count, storage) = (count + 1, after) ∧ after.InStep ∧
      storage.ChangesOnly index after ∧
      after.view = { storage.view.evict [index] with counts := storage.counts } := by
  obtain ⟨entry, here, memo⟩ := inStep.memo?_eq live
  generalize changed : (storage.content slot.kind).remove index = table
  let after := { (storage.putSlot index none).putTable table with free := index :: storage.free }
  have released : Storage.release index (count, storage) = (count + 1, after) := by
    have typed : (storage.putSlot index none).IsTyped := inStep.typed
    have content : (storage.putSlot index none).content slot.kind = storage.content slot.kind := rfl
    simp only [Storage.release, live, evict, typed.openTable_eq, content, changed, after]
    rfl
  have rewrites : storage.Rewrites index none table none after :=
    ⟨slot?_putSlot_of_live live none, fun _ => rfl,
      fun other => changed ▸ Kinds.Table.entries_remove here other⟩
  have viewed : after.view = { storage.view.evict [index] with counts := storage.counts } := by
    refine Cache.ext_memo? ?_ (fun other => ?_) rfl rfl
    · rw [size_view]
      refine (Array.size_setIfInBounds ..).trans ?_
      rw [Cache.size_evict, size_view]
    · rw [memo?_view]
      refine Eq.trans ?_ (Cache.memo?_evict storage.view [index] other).symm
      rw [memo?_view]
      by_cases same : other = index
      · simp [same, Storage.memo?, rewrites.slot?_self]
      · simp [same, rewrites.changesOnly.memo? same]
  have wellFormed : (storage.view.evict [index]).WellFormed :=
    inStep.wellFormed.evict (List.nodup_singleton index) (by simp [memo])
  refine ⟨after, released, inStep.change rewrites.changesOnly ?_ (inStep.typed.putTable table)
    (rewrites.inverse inStep (changed ▸ (inStep.inverse slot.kind).remove here))
    (rewrites.occupied (fun _ => inStep.known?_of_ne live) ?_ rfl) ?_,
    rewrites.changesOnly, viewed⟩
  · rw [viewed]
    exact ⟨wellFormed.unique, wellFormed.nodup_free, wellFormed.mem_free⟩
  · rintro _ ⟨⟩
  · intro new entry same
    cases rewrites.slot?_self.symm.trans same

/-- Slots are emptied one by one. -/
theorem releaseAll (inStep : storage.InStep) {freed : List Nat} (nodup : freed.Nodup)
    (live : ∀ index ∈ freed, (storage.slot? index).isSome) (count : Nat) :
    ∃ after, freed.foldl (fun state index => Storage.release index state) (count, storage) =
        (count + freed.length, after) ∧ after.InStep ∧
      after.view = { storage.view.evict freed with counts := storage.counts } := by
  induction freed generalizing storage count with
  | nil => exact ⟨storage, rfl, inStep, rfl⟩
  | cons index rest ih =>
    obtain ⟨fresh, nodup⟩ := List.nodup_cons.mp nodup
    obtain ⟨slot, here⟩ := Option.isSome_iff_exists.mp (live index List.mem_cons_self)
    obtain ⟨between, released, inStep, only, viewed⟩ := inStep.release here count
    have later : ∀ other ∈ rest, (between.slot? other).isSome := by
      intro other member
      rw [only.slot? other (ne_of_mem_of_not_mem member fresh)]
      exact live other (List.mem_cons_of_mem _ member)
    obtain ⟨after, ran, inStep, done⟩ := ih inStep nodup later (count + 1)
    refine ⟨after, ?_, inStep, ?_⟩
    · rw [List.foldl_cons, released, ran, List.length_cons, Nat.add_assoc, Nat.add_comm 1]
    · have counts : between.counts = storage.counts := congrArg Cache.counts viewed
      rw [done, viewed, counts]
      simp [Cache.evict]

end InStep

end Storage

end IncrementalFrontend
