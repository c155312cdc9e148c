import IncrementalFrontend.Proofs.Incremental.Collecting
import IncrementalFrontend.Proofs.Incremental.InStep
import IncrementalFrontend.Frontend.Rules

/-!
What a cache in parts evicts. It is what a collection of the session takes, and whatever is done to
the parts, they stay in step.
-/
namespace IncrementalFrontend

variable {S : Signature} {kinds : Kinds S} {kind : kinds.Kind} {index : Nat}

namespace Storage

variable {storage after : Storage kinds} {slot : Slot kinds} {isShared : Nat → Bool}
  {current : Revision}

/-- What is kept has the slots on the stack, and is closed under dependencies but for what was kept
before. -/
theorem keep_closed (storage : Storage kinds) (kept : Finset Nat) (pending : List Nat) :
    kept ⊆ storage.keep kept pending ∧ (∀ index ∈ pending, index ∈ storage.keep kept pending) ∧
      ∀ index ∈ storage.keep kept pending, index ∉ kept →
        ∀ dependency ∈ storage.dependencies index, dependency ∈ storage.keep kept pending := by
  fun_induction keep storage kept pending with
  | case1 kept => exact ⟨subset_rfl, by simp, fun _ here fresh => absurd here fresh⟩
  | case2 kept index pending member ih =>
    obtain ⟨stays, visited, closed⟩ := ih
    refine ⟨stays, fun other here => ?_, closed⟩
    obtain rfl | later := List.mem_cons.mp here
    · exact stays member
    · exact visited other later
  | case3 kept index pending fresh ih =>
    obtain ⟨stays, visited, closed⟩ := ih
    refine ⟨(Finset.subset_insert _ _).trans stays, fun other here => ?_,
      fun other here absent dependency read => ?_⟩
    · obtain rfl | later := List.mem_cons.mp here
      · exact stays (Finset.mem_insert_self _ _)
      · exact visited other (List.mem_append_right _ later)
    · by_cases same : other = index
      · subst same
        exact visited dependency (List.mem_append_left _ (List.mem_reverse.mpr read))
      · exact closed other here (by simp [same, absent]) dependency read

namespace InStep

theorem dependencies_view (inStep : storage.InStep) (index : Nat) :
    storage.view.dependencies index = storage.dependencies index := by
  unfold Cache.dependencies Storage.dependencies
  cases live : storage.slot? index with
  | none => rw [inStep.memo?_eq_none_iff.mpr live]; rfl
  | some slot =>
    obtain ⟨entry, -, memo⟩ := inStep.memo?_eq live
    rw [memo]
    rfl

/-- What is kept is needed. -/
theorem needs_of_mem_keep (inStep : storage.InStep) {kept : Finset Nat} {pending : List Nat}
    (member : index ∈ storage.keep kept pending) :
    index ∈ kept ∨ ∃ start ∈ pending, storage.view.Needs start index := by
  fun_induction keep storage kept pending with
  | case1 kept => exact .inl member
  | case2 kept visited pending _ ih =>
    obtain here | ⟨start, later, needs⟩ := ih member
    · exact .inl here
    · exact .inr ⟨start, List.mem_cons_of_mem _ later, needs⟩
  | case3 kept visited pending fresh ih =>
    obtain here | ⟨start, later, needs⟩ := ih member
    · obtain rfl | here := Finset.mem_insert.mp here
      · exact .inr ⟨index, List.mem_cons_self, .refl⟩
      · exact .inl here
    · right
      obtain read | later := List.mem_append.mp later
      · rw [List.mem_reverse, ← inStep.dependencies_view] at read
        exact ⟨visited, List.mem_cons_self, needs.head read⟩
      · exact ⟨start, List.mem_cons_of_mem _ later, needs⟩

theorem mem_keep_iff (inStep : storage.InStep) {pending : List Nat} :
    index ∈ storage.keep ∅ pending ↔ ∃ start ∈ pending, storage.view.Needs start index := by
  constructor
  · intro member
    exact (inStep.needs_of_mem_keep member).resolve_left (Finset.notMem_empty index)
  · rintro ⟨start, begins, needs⟩
    obtain ⟨-, visited, closed⟩ := storage.keep_closed ∅ pending
    induction needs with
    | refl => exact visited start begins
    | tail _ read ih =>
      rw [inStep.dependencies_view] at read
      exact closed _ ih (Finset.notMem_empty _) _ read

end InStep

theorem mem_evicted : index ∈ storage.evicted isShared current ↔ index ∈ storage.scanned ∧
    storage.isPinned isShared index = false ∧ storage.isStale current index = true ∧
      index ∉ storage.keep ∅ (storage.scanned.filter (storage.isPinned isShared)).reverse := by
  simp only [evicted, List.mem_filter, Bool.and_eq_true, Bool.not_eq_true', decide_eq_true_eq,
    and_assoc]

theorem nodup_evicted (storage : Storage kinds) (isShared : Nat → Bool) (current : Revision) :
    (storage.evicted isShared current).Nodup :=
  (List.nodup_range.filter _).filter _

theorem isSome_of_mem_evicted (member : index ∈ storage.evicted isShared current) :
    (storage.slot? index).isSome := by
  obtain ⟨-, -, stale, -⟩ := mem_evicted.mp member
  exact Option.isSome_of_any stale

namespace InStep

theorem recount (inStep : storage.InStep) (counts : CacheCounts) :
    { storage with counts }.InStep where
  wellFormed :=
    ⟨inStep.wellFormed.unique, inStep.wellFormed.nodup_free, inStep.wellFormed.mem_free⟩
  typed := inStep.typed
  inverse := inStep.inverse
  occupied := inStep.occupied
  flagged := inStep.flagged

/-- Queries are evicted. -/
theorem evictUnverified (inStep : storage.InStep) (isShared : Nat → Bool) (current : Revision) :
    ∃ after, storage.evictUnverified isShared current =
        ((storage.evicted isShared current).length, after) ∧ after.InStep ∧
      after.view = storage.view.evict (storage.evicted isShared current) := by
  obtain ⟨released, ran, inStep', viewed⟩ :=
    inStep.releaseAll (storage.nodup_evicted isShared current) (fun _ => isSome_of_mem_evicted) 0
  have before : released.counts = storage.counts := congrArg Cache.counts viewed
  let counts := { released.counts with
    evictions := released.counts.evictions + (storage.evicted isShared current).length }
  refine ⟨{ released with counts }, ?_, inStep'.recount counts, ?_⟩
  · rw [Storage.evictUnverified, ran, Nat.zero_add]
  · show { released.view with counts } = _
    rw [viewed, Cache.evict]
    simp only [counts, before]
    rfl

theorem isHeld_eq (inStep : storage.InStep) (isShared : Nat → Bool) (kind : kinds.Kind)
    (index : Nat) : storage.isHeld isShared kind index =
      (storage.known? kind index).any fun entry => entry.value.any (isShared ·.identity) := by
  unfold isHeld known?
  obtain ⟨opened, empty⟩ | opened := inStep.typed.table?_eq kind
  · simp only [opened, empty]
    rfl
  · rw [opened]

/-- What is evicted is what a collection of a session with the same memos takes. -/
theorem evicted_eq_collectable (inStep : storage.InStep) {rules : Rules S} {context : Context S}
    (same : context.cache = storage.view)
    (shared : ∀ identity, isShared identity =
      (decide (identity ∈ context.handles) || context.isReferenced rules identity))
    (small : storage.slots.size ≤ maxIndex) :
    storage.evicted isShared context.revision = context.collectable rules := by
  have pinned (index : Nat) : (storage.view.memo? index).any (context.isHeld rules) =
      storage.isPinned isShared index := by
    cases live : storage.slot? index with
    | none => simp [inStep.memo?_eq_none_iff.mpr live, isPinned, live]
    | some slot =>
      obtain ⟨entry, here, memo⟩ := inStep.memo?_eq live
      simp only [memo, isPinned, live, Option.any_some, inStep.isHeld_eq, here, Context.isHeld,
        shared]
      rfl
  have stale (index : Nat) : (storage.view.memo? index).any context.isStale =
      storage.isStale context.revision index := by
    cases live : storage.slot? index with
    | none => simp [inStep.memo?_eq_none_iff.mpr live, isStale, live]
    | some slot =>
      obtain ⟨entry, here, memo⟩ := inStep.memo?_eq live
      simp only [memo, isStale, live, Option.any_some, Context.isStale,
        inStep.flagged index slot entry live here, Option.not_isSome]
      rfl
  have slotsWith (property : Memo S → Bool) : context.slotsWith property =
      storage.scanned.filter fun index => (storage.view.memo? index).any property := by
    rw [Context.slotsWith, same, Cache.liveSlots, size_view, List.filter_filter, Storage.scanned,
      Nat.min_eq_left small]
    refine List.filter_congr fun index _ => ?_
    cases storage.view.memo? index <;> simp
  rw [evicted, Context.collectable, slotsWith, slotsWith, same]
  simp only [pinned, stale, List.filter_filter]
  refine List.filter_congr fun index scanned => ?_
  rw [Bool.eq_iff_iff]
  simp only [Bool.and_eq_true, decide_eq_true_eq, inStep.mem_keep_iff, List.mem_reverse,
    Cache.mem_unreached_iff, Bool.not_eq_true', List.mem_filter]
  constructor
  · rintro ⟨unneeded, -, isStale⟩
    refine ⟨⟨?_, fun start pinned needs => unneeded ⟨start, pinned, needs⟩⟩, isStale⟩
    rw [← stale] at isStale
    exact Cache.mem_liveSlots.mpr (Option.isSome_of_any isStale)
  · rintro ⟨⟨-, unneeded⟩, isStale⟩
    refine ⟨?_, ?_, isStale⟩
    · rintro ⟨start, pinned, needs⟩
      exact unneeded start pinned needs
    · exact Bool.eq_false_iff.mpr fun isPinned => unneeded index ⟨scanned, isPinned⟩ .refl

end InStep

/-- Caches that changes lead to: queries without a slot get one, slots get values or change what
they tell, and queries are evicted. -/
inductive Reached : Storage kinds → Prop
  | empty : Reached .empty
  | insert {storage : Storage kinds} (query : S.Query) (origin : Origin) (revision : Revision) :
      Reached storage → storage.lookup query = .ok none →
      Reached (storage.insert query origin revision).2
  | setValue {storage : Storage kinds} (kind : kinds.Kind) (index : Nat)
      (value : (key : kinds.Key kind) → Shared (S.Value key)) :
      Reached storage → Reached (storage.setValue kind index value).2
  | update {storage : Storage kinds} (index : Nat) (change : SlotState → SlotState) :
      Reached storage → Reached (storage.update index change).2
  | evictUnverified {storage : Storage kinds} (isShared : Nat → Bool) (current : Revision) :
      Reached storage → Reached (storage.evictUnverified isShared current).2

theorem Reached.inStep (reached : storage.Reached) : storage.InStep := by
  induction reached with
  | empty => exact inStep_empty
  | @insert storage query origin revision _ absent ih =>
    rcases inserted : storage.insert query origin revision with ⟨_ | index, after⟩
    · exact (ih.insert_error inserted).1 ▸ ih
    · exact (ih.insert absent inserted).1
  | @setValue storage kind index value _ ih =>
    cases here : storage.known? kind index with
    | none =>
      obtain ⟨after, stored, inStep, -⟩ := ih.setValue_missing here value
      exact stored ▸ inStep
    | some entry =>
      obtain ⟨_, after, -, -, stored, inStep, -⟩ := ih.setValue here value
      exact stored ▸ inStep
  | @update storage index change _ ih =>
    cases live : storage.slot? index with
    | none =>
      rw [Storage.update, live]
      exact ih
    | some slot =>
      obtain ⟨_, after, -, updated, inStep, -⟩ := ih.update live change
      exact updated ▸ inStep
  | evictUnverified isShared current _ ih =>
    obtain ⟨after, ran, inStep, -⟩ := ih.evictUnverified isShared current
    exact ran ▸ inStep

def live (storage : Storage kinds) : List Nat :=
  (List.range storage.slots.size).filter fun index => (storage.slot? index).isSome

theorem lookup_of_absent {query : S.Query}
    (absent : storage.tables.lookup (kinds.kindOf query) = none) :
    storage.lookup query = .ok none := by
  have opened : storage.table? (kinds.kindOf query) = .ok none := by
    simp only [table?, absent]
  rw [Storage.lookup, opened]
  rfl

structure Agrees (storage : Storage kinds) : Prop where
  live_or_free : ∀ index < storage.slots.size,
    (storage.slot? index).isSome ∧ index ∉ storage.free ∨
      storage.slot? index = none ∧ storage.free.count index = 1
  free_lt : ∀ index ∈ storage.free, index < storage.slots.size
  table : ∀ index slot, storage.slot? index = some slot →
    (∃ entry, storage.known? slot.kind index = some entry) ∧
      ∀ kind, kind ≠ slot.kind → storage.known? kind index = none
  inverse : ∀ kind (key : kinds.Key kind) index,
    storage.index? key = some index ↔ (storage.known? kind index).map (·.key) = some key
  exists_slot : ∀ kind (key : kinds.Key kind) index, storage.index? key = some index →
    ∃ slot, storage.slot? index = some slot ∧ slot.kind = kind
  key_eq : ∀ kind other (key : kinds.Key kind) (key' : kinds.Key other) index,
    storage.index? key = some index → storage.index? key' = some index → key.1 = key'.1
  hasValue : ∀ index slot entry, storage.slot? index = some slot →
    storage.known? slot.kind index = some entry → slot.hasValue = entry.value.isSome
  size_eq : storage.size = storage.live.length
  lookup : ∀ query, storage.lookup query = .ok none ∨ ∃ index slot entry,
    storage.slot? index = some slot ∧
      storage.known? (kinds.kindOf query) index = some entry ∧ entry.key = ⟨query, rfl⟩ ∧
      storage.lookup query = .ok (some ⟨index, entry.stored?, slot.origin, slot.verifiedAt⟩)
  key : ∀ kind (key : kinds.Key kind) index, storage.index? key = some index →
    storage.key kind index = .ok key
  value : ∀ kind (key : kinds.Key kind) index, storage.index? key = some index →
    ∃ entry, storage.known? kind index = some entry ∧ storage.value kind index = .ok entry.stored?

namespace InStep

theorem mem_free_iff (inStep : storage.InStep) : index ∈ storage.free ↔
    index < storage.slots.size ∧ storage.slot? index = none := by
  show index ∈ storage.view.free ↔ _
  rw [inStep.wellFormed.mem_free, size_view, inStep.memo?_eq_none_iff]

/-- The number of slots less the number of the free ones is the number of the others. -/
theorem size_eq (inStep : storage.InStep) : storage.size = storage.live.length := by
  have freed : storage.free.Perm ((List.range storage.slots.size).filter
      fun index => !(storage.slot? index).isSome) := by
    refine (List.perm_ext_iff_of_nodup inStep.wellFormed.nodup_free
      (List.nodup_range.filter _)).mpr fun index => ?_
    simp only [List.mem_filter, List.mem_range, Bool.not_eq_true', Option.isSome_eq_false_iff,
      Option.isNone_iff_eq_none]
    exact inStep.mem_free_iff
  have split := (List.range storage.slots.size).length_eq_length_filter_add
    fun index => (storage.slot? index).isSome
  rw [List.length_range] at split
  have length := freed.length_eq
  rw [Storage.size, live]
  omega

theorem table?_eq_of_known? (inStep : storage.InStep) {entry : kinds.TableEntry kind}
    (here : storage.known? kind index = some entry) :
    storage.table? kind = .ok (some (storage.content kind)) ∧
      (storage.content kind).entry index = .ok entry := by
  constructor
  · obtain ⟨-, empty⟩ | opened := inStep.typed.table?_eq kind
    · simp [known?, empty, Kinds.Table.empty] at here
    · exact opened
  · rw [known?] at here
    simp only [Kinds.Table.entry, here]

theorem exists_known? (inStep : storage.InStep) {key : kinds.Key kind}
    (here : storage.index? key = some index) :
    ∃ entry, storage.known? kind index = some entry ∧ entry.key = key :=
  Option.map_eq_some_iff.mp ((inStep.inverse kind key index).mp here)

theorem agrees (inStep : storage.InStep) : storage.Agrees where
  live_or_free index inside := by
    cases here : storage.slot? index with
    | none =>
      have free := inStep.mem_free_iff.mpr ⟨inside, here⟩
      exact .inr ⟨rfl, List.count_eq_one_of_mem inStep.wellFormed.nodup_free free⟩
    | some slot =>
      refine .inl ⟨rfl, fun free => ?_⟩
      rw [(inStep.mem_free_iff.mp free).2] at here
      cases here
  free_lt index member := (inStep.mem_free_iff.mp member).1
  table _ _ live := ⟨inStep.exists_entry live, fun _ => inStep.known?_of_ne live⟩
  inverse kind key index := inStep.inverse kind key index
  exists_slot kind key index here := by
    obtain ⟨entry, known, -⟩ := inStep.exists_known? here
    exact inStep.exists_slot known
  key_eq kind other key key' index first second := by
    have first := inStep.index?_eq_some_iff.mp first
    rw [inStep.index?_eq_some_iff.mp second] at first
    exact (Option.some.inj first).symm
  hasValue := inStep.flagged
  size_eq := inStep.size_eq
  lookup query := by
    cases here : storage.index? (⟨query, rfl⟩ : kinds.Key (kinds.kindOf query)) with
    | none =>
      left
      rw [inStep.lookup_eq, inStep.index?_eq_none_iff.mp here]
      rfl
    | some index =>
      right
      obtain ⟨⟨key, value⟩, known, same⟩ := inStep.exists_known? here
      obtain rfl : key = ⟨query, rfl⟩ := same
      obtain ⟨slot, live, -, memo⟩ := inStep.memo?_of_known? known
      have found : storage.view.find? query = some (index, _) := inStep.wellFormed.find?_eq memo
      refine ⟨index, slot, _, live, known, rfl, ?_⟩
      rw [inStep.lookup_eq, found]
      rfl
  key kind key index here := by
    obtain ⟨entry, known, rfl⟩ := inStep.exists_known? here
    obtain ⟨opened, entered⟩ := inStep.table?_eq_of_known? known
    simp only [Storage.key, opened, bind, Except.bind, entered]
    rfl
  value kind key index here := by
    obtain ⟨entry, known, rfl⟩ := inStep.exists_known? here
    obtain ⟨opened, entered⟩ := inStep.table?_eq_of_known? known
    refine ⟨entry, known, ?_⟩
    simp only [Storage.value, opened, bind, Except.bind, entered]
    rfl

end InStep

structure Follows (storage : Storage kinds) : Prop where
  lookup : ∀ query, storage.lookup query =
    .ok ((storage.view.find? query).map fun (index, entry) =>
      ⟨index, entry.value.map (⟨⟨query, rfl⟩, ·⟩), entry.origin, entry.verifiedAt⟩)
  insert : ∀ query origin revision, storage.lookup query = .ok none →
    (∃ index after, storage.insert query origin revision = (.ok index, after) ∧
      storage.view.insert query origin revision = (index, after.view)) ∨
    storage.insert query origin revision = (.error (.missingSlot maxIndex), storage) ∧
      storage.free = [] ∧ maxIndex < storage.slots.size
  setValue : ∀ kind index (value : (key : kinds.Key kind) → Shared (S.Value key)), ∃ after,
    storage.setValue kind index value = (.error (.missingSlot index), after) ∧
      storage.known? kind index = none ∧ after.view = storage.view ∨
    storage.setValue kind index value = (.ok (), after) ∧
      ∃ (key : kinds.Key kind) (entry : Entry S key.1),
      storage.view.memo? index = some ⟨key, entry⟩ ∧
        after.view = storage.view.put index ⟨key, { entry with value := some (value key) }⟩
  update : ∀ index change, ∃ after,
    storage.update index change = (.error (.missingSlot index), after) ∧
      storage.slot? index = none ∧ after = storage ∨
    storage.update index change = (.ok (), after) ∧ ∃ slot entry,
      storage.slot? index = some slot ∧ storage.known? slot.kind index = some entry ∧
        after.view = storage.view.put index ((change slot.toSlotState).memo entry)
  evictUnverified : ∀ (rules : Rules S) (context : Context S) (isShared : Nat → Bool),
    context.cache = storage.view → storage.slots.size ≤ maxIndex →
    (∀ identity, isShared identity =
      (decide (identity ∈ context.handles) || context.isReferenced rules identity)) →
    ∃ after, storage.evictUnverified isShared context.revision =
        ((context.collectGarbage rules).1, after) ∧
      (context.collectGarbage rules).2.cache = after.view

theorem InStep.follows (inStep : storage.InStep) : storage.Follows where
  lookup := inStep.lookup_eq
  insert query origin revision absent := by
    rcases inserted : storage.insert query origin revision with ⟨error | index, after⟩
    · obtain ⟨rfl, rfl, free, full⟩ := inStep.insert_error inserted
      exact .inr ⟨rfl, free, full⟩
    · exact .inl ⟨index, after, rfl, (inStep.insert absent inserted).2⟩
  setValue kind index value := by
    cases here : storage.known? kind index with
    | none =>
      obtain ⟨after, missed, -, same⟩ := inStep.setValue_missing here value
      exact ⟨after, .inl ⟨missed, rfl, same⟩⟩
    | some entry =>
      obtain ⟨slot, after, live, rfl, stored, -, viewed⟩ := inStep.setValue here value
      obtain ⟨_, live', -, memo⟩ := inStep.memo?_of_known? here
      exact ⟨after, .inr ⟨stored, entry.key, _, memo, viewed _ memo⟩⟩
  update index change := by
    cases live : storage.slot? index with
    | none =>
      refine ⟨storage, .inl ⟨?_, rfl, rfl⟩⟩
      rw [Storage.update, live]
    | some slot =>
      obtain ⟨entry, after, known, updated, -, viewed⟩ := inStep.update live change
      exact ⟨after, .inr ⟨updated, slot, entry, rfl, known, viewed⟩⟩
  evictUnverified rules context isShared same small shared := by
    obtain ⟨after, ran, -, viewed⟩ := inStep.evictUnverified isShared context.revision
    rw [inStep.evicted_eq_collectable same shared small] at ran viewed
    refine ⟨after, ran, ?_⟩
    rw [viewed, ← same]
    rfl

/-- Whatever is done to the parts of a cache, they agree, and they are a cache of memos. -/
theorem Reached.stays_in_step (reached : storage.Reached) : storage.Agrees ∧ storage.Follows :=
  ⟨reached.inStep.agrees, reached.inStep.follows⟩

end Storage

namespace Frontend

inductive QueryKind where
  | scripted (kind : ScriptKind)
  | fileText
  | parseFile
  | parseString
  | linkage
  | composite
deriving DecidableEq

def QueryKind.name : QueryKind → String
  | scripted kind => kind.text
  | fileText => "FileText"
  | parseFile => "ParseFile"
  | parseString => "ParseString"
  | linkage => "DeclLinkage"
  | composite => "CompositeType"

def Query.kindOf : Query → QueryKind
  | .scripted kind _ => .scripted kind
  | .fileText _ => .fileText
  | .parseFile _ => .parseFile
  | .parseString _ => .parseString
  | .linkage _ => .linkage
  | .composite _ => .composite

def queryKinds : Kinds signature where
  Kind := QueryKind
  decideKind := inferInstance
  kindOf := Query.kindOf
  name := QueryKind.name

def noText : (key : queryKinds.Key QueryKind.fileText) → Shared (signature.Value key.1)
  | ⟨.fileText _, _⟩ => ⟨0, .ok ""⟩

def opened : Storage queryKinds :=
  let storage : Storage queryKinds := (Storage.empty.insert (Query.fileText .empty) .input 1).2
  let storage := (storage.setValue QueryKind.fileText 0 noText).2
  (storage.insert (Query.parseFile ⟨.empty, .empty⟩) .derived 1).2

def recycled : Storage queryKinds :=
  ((opened.evictUnverified (fun _ => false) 1).2.insert (Query.scripted .number "") .derived 2).2

theorem reached_recycled : recycled.Reached := by
  have opened : opened.Reached :=
    .insert _ _ _ (.setValue _ _ _ (.insert _ _ _ .empty (by rfl))) (by rfl)
  exact .insert _ _ _ (.evictUnverified _ _ opened) (Storage.lookup_of_absent
    (Option.isNone_iff_eq_none.mp (by decide +kernel)))

theorem recycled_stays_in_step : (opened.evictUnverified (fun _ => false) 1).1 = 1 ∧
    recycled.slots.size = 2 ∧ recycled.free = [] ∧ recycled.Agrees ∧ recycled.Follows := by
  refine ⟨by decide +kernel, by decide +kernel, by decide +kernel, ?_⟩
  exact Storage.Reached.stays_in_step reached_recycled

end Frontend

end IncrementalFrontend
