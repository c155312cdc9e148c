import Mathlib.Algebra.BigOperators.Group.Finset.Basic
import Mathlib.Data.List.AList
import IncrementalFrontend.Incremental.Cache

/-!
A cache in parts. The queries of each kind are in a table of their own, with a map from queries to
slots and one from slots to queries and values. A slot tells everything else, whatever its kind is,
and which kind it is. Each change goes through the parts one by one.
-/
namespace IncrementalFrontend

structure Kinds (S : Signature) where
  Kind : Type
  decideKind : DecidableEq Kind
  kindOf : S.Query → Kind
  name : Kind → String

namespace Kinds

variable {S : Signature} (kinds : Kinds S)

instance : DecidableEq kinds.Kind :=
  kinds.decideKind

abbrev Key (kind : kinds.Kind) : Type :=
  {query : S.Query // kinds.kindOf query = kind}

abbrev Stored (kind : kinds.Kind) : Type :=
  (key : kinds.Key kind) × Shared (S.Value key)

structure TableEntry (kind : kinds.Kind) where
  key : kinds.Key kind
  value : Option (Shared (S.Value key))

structure Table (kind : kinds.Kind) where
  indices : AList fun _ : kinds.Key kind => Nat
  entries : AList fun _ : Nat => kinds.TableEntry kind

abbrev AnyTable : Type :=
  (kind : kinds.Kind) × kinds.Table kind

end Kinds

variable {S : Signature} {kinds : Kinds S} {kind other : kinds.Kind}

namespace Kinds

def TableEntry.stored? (entry : kinds.TableEntry kind) : Option (kinds.Stored kind) :=
  entry.value.map (⟨entry.key, ·⟩)

namespace Table

def empty : kinds.Table kind :=
  ⟨∅, ∅⟩

def entry (table : kinds.Table kind) (index : Nat) : Except QueryError (kinds.TableEntry kind) :=
  match table.entries.lookup index with
  | some entry => .ok entry
  | none => .error (.missingSlot index)

def add (table : kinds.Table kind) (key : kinds.Key kind) (index : Nat) : kinds.Table kind :=
  ⟨table.indices.insert key index, table.entries.insert index ⟨key, none⟩⟩

def setEntry (table : kinds.Table kind) (index : Nat) (entry : kinds.TableEntry kind) :
    kinds.Table kind :=
  { table with entries := table.entries.insert index entry }

def remove (table : kinds.Table kind) (index : Nat) : kinds.Table kind :=
  match table.entries.lookup index with
  | some entry => ⟨table.indices.erase entry.key, table.entries.erase index⟩
  | none => table

end Table

def AnyTable.ofKind? (table : kinds.AnyTable) (kind : kinds.Kind) : Option (kinds.Table kind) :=
  if same : table.1 = kind then some (same ▸ table.2) else none

end Kinds

structure SlotState where
  origin : Origin
  changedAt : Revision
  verifiedAt : Revision
  dependencies : List Nat
  diagnostics : List Diagnostic
  executions : Nat

structure Slot (kinds : Kinds S) extends SlotState where
  hasValue : Bool
  kind : kinds.Kind

structure Found (kinds : Kinds S) (kind : kinds.Kind) where
  index : Nat
  value : Option (kinds.Stored kind)
  origin : Origin
  verifiedAt : Revision

structure Storage (kinds : Kinds S) where
  tables : AList fun _ : kinds.Kind => kinds.AnyTable
  slots : Array (Option (Slot kinds))
  free : List Nat
  counts : CacheCounts

namespace Storage

def empty : Storage kinds :=
  ⟨∅, #[], [], ⟨0, 0, 0, 0, 0⟩⟩

def maxIndex : Nat := 0xFFFFFFFF

variable (storage : Storage kinds)

def slot? (index : Nat) : Option (Slot kinds) :=
  storage.slots[index]?.join

def slot (index : Nat) : Except QueryError (Slot kinds) :=
  match storage.slot? index with
  | some slot => .ok slot
  | none => .error (.missingSlot index)

def table? (kind : kinds.Kind) : Except QueryError (Option (kinds.Table kind)) :=
  match storage.tables.lookup kind with
  | none => .ok none
  | some table =>
    match table.ofKind? kind with
    | some table => .ok (some table)
    | none => .error (.tableMismatch (kinds.name kind))

def openTable (kind : kinds.Kind) : Except QueryError (kinds.Table kind) :=
  (storage.table? kind).map (·.getD .empty)

def putTable (table : kinds.Table kind) : Storage kinds :=
  { storage with tables := storage.tables.insert kind ⟨kind, table⟩ }

def putSlot (index : Nat) (slot : Option (Slot kinds)) : Storage kinds :=
  { storage with slots := storage.slots.setIfInBounds index slot }

def lookup (query : S.Query) : Except QueryError (Option (Found kinds (kinds.kindOf query))) := do
  match ← storage.table? (kinds.kindOf query) with
  | none => return none
  | some table =>
    match table.indices.lookup ⟨query, rfl⟩ with
    | none => return none
    | some index =>
      let slot ← storage.slot index
      let entry ← table.entry index
      return some ⟨index, entry.stored?, slot.origin, slot.verifiedAt⟩

def place (slot : Slot kinds) : Option (Nat × Storage kinds) :=
  match storage.free with
  | index :: free => some (index, { storage with free }.putSlot index (some slot))
  | [] =>
    if storage.slots.size ≤ maxIndex then
      some (storage.slots.size, { storage with slots := storage.slots.push (some slot) })
    else none

protected def insert (query : S.Query) (origin : Origin) (revision : Revision) :
    Except QueryError Nat × Storage kinds :=
  match storage.place ⟨⟨origin, revision, revision, [], [], 0⟩, false, kinds.kindOf query⟩ with
  | none => (.error (.missingSlot maxIndex), storage)
  | some (index, placed) =>
    match placed.openTable (kinds.kindOf query) with
    | .error error => (.error error, placed)
    | .ok table => (.ok index, placed.putTable (table.add ⟨query, rfl⟩ index))

def key (kind : kinds.Kind) (index : Nat) : Except QueryError (kinds.Key kind) := do
  match ← storage.table? kind with
  | none => throw (.tableMismatch (kinds.name kind))
  | some table => return (← table.entry index).key

def value (kind : kinds.Kind) (index : Nat) : Except QueryError (Option (kinds.Stored kind)) := do
  match ← storage.table? kind with
  | none => return none
  | some table => return (← table.entry index).stored?

def setValue (kind : kinds.Kind) (index : Nat)
    (value : (key : kinds.Key kind) → Shared (S.Value key)) :
    Except QueryError Unit × Storage kinds :=
  match storage.openTable kind with
  | .error error => (.error error, storage)
  | .ok table =>
    match table.entries.lookup index with
    | none => (.error (.missingSlot index), storage.putTable table)
    | some entry =>
      let stored := storage.putTable (table.setEntry index ⟨entry.key, some (value entry.key)⟩)
      match stored.slot? index with
      | none => (.error (.missingSlot index), stored)
      | some slot => (.ok (), stored.putSlot index (some { slot with hasValue := true }))

def update (index : Nat) (change : SlotState → SlotState) :
    Except QueryError Unit × Storage kinds :=
  match storage.slot? index with
  | none => (.error (.missingSlot index), storage)
  | some slot =>
    (.ok (), storage.putSlot index (some { slot with toSlotState := change slot.toSlotState }))

def isHeld (isShared : Nat → Bool) (kind : kinds.Kind) (index : Nat) : Bool :=
  match storage.table? kind with
  | .ok (some table) =>
    (table.entries.lookup index).any fun entry => entry.value.any (isShared ·.identity)
  | .ok none => false
  | .error _ => false

def dependencies (index : Nat) : List Nat :=
  ((storage.slot? index).map (·.dependencies)).getD []

def workload (kept : Finset Nat) : Nat :=
  ∑ index ∈ Finset.range storage.slots.size \ kept, ((storage.dependencies index).length + 1)

theorem dependencies_of_size_le {index : Nat} (outside : storage.slots.size ≤ index) :
    storage.dependencies index = [] := by
  simp [dependencies, slot?, Array.getElem?_eq_none outside]

theorem workload_insert {kept : Finset Nat} {index : Nat} (unvisited : index ∉ kept) :
    storage.workload (insert index kept) + (storage.dependencies index).length ≤
      storage.workload kept := by
  rw [workload, workload, Finset.sdiff_insert]
  by_cases inside : index < storage.slots.size
  · have member : index ∈ Finset.range storage.slots.size \ kept :=
      Finset.mem_sdiff.mpr ⟨Finset.mem_range.mpr inside, unvisited⟩
    rw [← Finset.add_sum_erase _ _ member]
    omega
  · have absent : index ∉ Finset.range storage.slots.size \ kept := by simp [inside]
    rw [Finset.erase_eq_of_notMem absent, storage.dependencies_of_size_le (Nat.le_of_not_lt inside)]
    rfl

/-- The slots that were kept, those on the stack, and all that they depend on. -/
def keep (storage : Storage kinds) (kept : Finset Nat) : List Nat → Finset Nat
  | [] => kept
  | index :: pending =>
    if index ∈ kept then storage.keep kept pending
    else storage.keep (insert index kept) ((storage.dependencies index).reverse ++ pending)
termination_by pending => storage.workload kept + pending.length
decreasing_by
  · simp
  · have := storage.workload_insert ‹index ∉ kept›
    simp only [List.length_append, List.length_reverse, List.length_cons]
    omega

def evict (kind : kinds.Kind) (index : Nat) : Storage kinds :=
  match storage.openTable kind with
  | .error _ => storage
  | .ok table => storage.putTable (table.remove index)

def release (index : Nat) : Nat × Storage kinds → Nat × Storage kinds
  | (evicted, storage) =>
    match storage.slot? index with
    | none => (evicted, storage)
    | some slot =>
      let removed := (storage.putSlot index none).evict slot.kind index
      (evicted + 1, { removed with free := index :: removed.free })

def scanned : List Nat :=
  List.range (min storage.slots.size maxIndex)

def isPinned (isShared : Nat → Bool) (index : Nat) : Bool :=
  (storage.slot? index).any fun slot => storage.isHeld isShared slot.kind index

def isStale (current : Revision) (index : Nat) : Bool :=
  (storage.slot? index).any fun slot =>
    slot.origin == .derived && (!slot.hasValue || slot.verifiedAt != current)

/-- The queries that were computed and not verified in the revision, but those whose value is shared
and what they depend on. -/
def evicted (isShared : Nat → Bool) (current : Revision) : List Nat :=
  let pinned := storage.scanned.filter (storage.isPinned isShared)
  let stale := storage.scanned.filter fun index =>
    !storage.isPinned isShared index && storage.isStale current index
  stale.filter (· ∉ storage.keep ∅ pinned.reverse)

def evictUnverified (isShared : Nat → Bool) (current : Revision) : Nat × Storage kinds :=
  let (count, after) := (storage.evicted isShared current).foldl
    (fun state index => release index state) (0, storage)
  (count,
    { after with counts := { after.counts with evictions := after.counts.evictions + count } })

def size : Nat :=
  storage.slots.size - storage.free.length

end Storage

end IncrementalFrontend
