import Mathlib.Data.List.Dedup
import IncrementalFrontend.Name.Interner

/-!
Over a whole session an interner is a bijection between the texts it was given and their handles.
One call preserves that the interner knows just those texts and counts each of them once; the words
of the handles are told apart as long as no shard outgrows the 28 bits of a position.
-/
namespace IncrementalFrontend.Interner

inductive Call where
  | intern (text : String)
  | tryIntern (text : String)
  | get (text : String)
  | lookup (name : Name)

def Call.interned? : Call → Option String
  | .intern text | .tryIntern text => some text
  | .get _ | .lookup _ => none

def after (names : Interner) : Call → Interner
  | .intern text => (names.intern text).2
  | .tryIntern text =>
    match names.tryIntern text with
    | .ok (_, later) => later
    | .error _ => names
  | .get _ | .lookup _ => names

def returned? (names : Interner) : Call → Option (String × Name)
  | .intern text => some (text, (names.intern text).1)
  | .tryIntern text =>
    match names.tryIntern text with
    | .ok (name, _) => some (text, name)
    | .error _ => none
  | .get text => (names.find? text).map (text, ·)
  | .lookup _ => none

/-- A new interner answered these calls, the last one first, by these handles. -/
inductive Reached : List Call → List (String × Name) → Interner → Prop where
  | fresh : Reached [] [] .fresh
  | call {calls : List Call} {given : List (String × Name)} {names : Interner}
      (reached : Reached calls given names) (call : Call) :
      Reached (call :: calls) ((names.returned? call).toList ++ given) (names.after call)

def interned (calls : List Call) : List String :=
  calls.filterMap Call.interned? ++ (commonWords.reverse ++ [""])

def HasRoom (names : Interner) : Prop :=
  ∀ shard : Fin 16, names.shards[shard].texts.length ≤ Name.maxSlot

instance (names : Interner) : Decidable names.HasRoom :=
  inferInstanceAs (Decidable (∀ shard : Fin 16, names.shards[shard].texts.length ≤ Name.maxSlot))

structure Knows (names : Interner) (texts : List String) : Prop where
  known : ∀ text, (names.find? text).isSome ↔ text ∈ texts
  counted : names.size = texts.dedup.length
  first : names.find? "" = some Name.empty

variable {names : Interner} {texts : List String} {calls : List Call}
  {given : List (String × Name)} {text : String} {name : Name}

theorem intern_of_find? (found : names.find? text = some name) :
    names.intern text = (name, names) := by
  unfold intern
  split
  · rename_i other same
    rw [Option.some.inj (same.symm.trans found)]
  · rename_i isNew
    cases isNew.symm.trans found

theorem intern_of_new (isNew : names.find? text = none) :
    names.intern text = (names.next text, names.add text isNew) := by
  unfold intern
  split
  · rename_i found
    cases isNew.symm.trans found
  · rfl

/-- With room everywhere, the position of a text fits in a handle. -/
theorem HasRoom.slot_le (hasRoom : names.HasRoom) (found : names.find? text = some name) :
    name.slot ≤ Name.maxSlot := by
  obtain ⟨inside, _⟩ := List.getElem?_eq_some_iff.mp (find?_eq_some_iff.mp found).2
  exact Nat.le_trans (Nat.le_of_lt inside) (hasRoom name.shard)

/-- Trying to intern succeeds while there is room, and does the same as interning. -/
theorem HasRoom.tryIntern (hasRoom : names.HasRoom) (text : String) :
    names.tryIntern text = .ok (names.intern text) := by
  unfold Interner.tryIntern
  split
  · rename_i found
    rw [intern_of_find? found]
  · rename_i isNew
    rw [intern_of_new isNew]
    exact if_pos (hasRoom (Name.shardOf text))

/-- Only a full shard refuses a text, and the error tells which one and how many texts it has. -/
theorem full_of_tryIntern {error : InternError} (refused : names.tryIntern text = .error error) :
    error = .shardOverflow (Name.shardOf text) (names.next text).slot ∧
      Name.maxSlot < (names.next text).slot := by
  unfold Interner.tryIntern at refused
  split at refused
  · cases refused
  · dsimp only at refused
    split at refused
    · cases refused
    · rename_i full
      cases refused
      exact ⟨rfl, Nat.lt_of_not_le full⟩

theorem length_le_add (isNew : names.find? text = none) (shard : Fin 16) :
    names.shards[shard].texts.length ≤ (names.add text isNew).shards[shard].texts.length := by
  by_cases same : Name.shardOf text = shard
  · subst same
    simp [add, Shard.add]
  · have := Fin.val_ne_of_ne same
    simp [add, this]

theorem length_le_intern (names : Interner) (text : String) (shard : Fin 16) :
    names.shards[shard].texts.length ≤ (names.intern text).2.shards[shard].texts.length := by
  unfold intern
  split
  · exact Nat.le_refl _
  · rename_i isNew
    exact length_le_add isNew shard

theorem length_le_after (names : Interner) (call : Call) (shard : Fin 16) :
    names.shards[shard].texts.length ≤ (names.after call).shards[shard].texts.length := by
  cases call with
  | intern text => exact length_le_intern names text shard
  | tryIntern text =>
    unfold after Interner.tryIntern
    dsimp only
    split
    · rename_i tried
      split at tried
      · cases tried
        exact Nat.le_refl _
      · rename_i isNew
        split at tried
        · cases tried
          exact length_le_add isNew shard
        · cases tried
    · exact Nat.le_refl _
  | get | lookup => exact Nat.le_refl _

/-- There was room before a call if there is room after it. -/
theorem HasRoom.of_after {call : Call} (hasRoom : (names.after call).HasRoom) : names.HasRoom :=
  fun shard => Nat.le_trans (length_le_after names call shard) (hasRoom shard)

theorem Knows.intern (knows : names.Knows texts) (text : String) :
    (names.intern text).2.Knows (text :: texts) where
  known other := by
    cases isKnown : names.find? text with
    | some name =>
      have mem : text ∈ texts := (knows.known text).mp (by rw [isKnown]; rfl)
      rw [intern_of_find? isKnown, knows.known, List.mem_cons]
      constructor
      · exact .inr
      · rintro (rfl | mem)
        · exact mem
        · exact mem
    | none =>
      rw [intern_of_new isKnown, find?_add, List.mem_cons, ← knows.known]
      split
      case isTrue same => simp [same]
      case isFalse different => simp [different]
  counted := by
    cases isKnown : names.find? text with
    | some name =>
      have mem : text ∈ texts := (knows.known text).mp (by rw [isKnown]; rfl)
      rw [intern_of_find? isKnown, List.dedup_cons_of_mem mem, knows.counted]
    | none =>
      have isNew : text ∉ texts := by rw [← knows.known, isKnown]; nofun
      rw [intern_of_new isKnown, List.dedup_cons_of_notMem isNew, List.length_cons,
        ← knows.counted]
      rfl
  first := find?_intern_of_find? knows.first text

theorem texts_blank : ∀ shard : Fin 16,
    blank.shards[shard].texts = if shard = 0 then [""] else [] := by
  decide

theorem find?_blank_empty : blank.find? "" = some Name.empty :=
  find?_eq_some_iff.mpr (by decide +kernel)

theorem knows_blank : blank.Knows [""] where
  known text := by
    rw [List.mem_singleton]
    constructor
    · intro isKnown
      obtain ⟨name, found⟩ := Option.isSome_iff_exists.mp isKnown
      have stands := (find?_eq_some_iff.mp found).2
      rw [texts_blank] at stands
      split at stands
      · exact (List.mem_singleton.mp (List.mem_of_getElem? stands))
      · cases stands
    · rintro rfl
      rw [find?_blank_empty]
      rfl
  counted := rfl
  first := find?_blank_empty

theorem Knows.foldl (knows : names.Knows texts) (words : List String) :
    (words.foldl (fun names word => (names.intern word).2) names).Knows (words.reverse ++ texts) := by
  induction words generalizing names texts with
  | nil => exact knows
  | cons word words later =>
    rw [List.foldl_cons, List.reverse_cons, List.append_assoc]
    exact later (knows.intern word)

theorem find?_fresh_empty : fresh.find? "" = some Name.empty :=
  (knows_blank.foldl commonWords).first

/-- A call adds the text it interns to the known ones, and no other. -/
theorem Knows.after (knows : names.Knows texts) (hasRoom : names.HasRoom) (call : Call) :
    (names.after call).Knows (call.interned?.toList ++ texts) := by
  cases call with
  | intern text => exact knows.intern text
  | tryIntern text =>
    rw [Interner.after, hasRoom.tryIntern]
    exact knows.intern text
  | get | lookup => exact knows

/-- What a call returns is found afterwards. -/
theorem find?_after_of_returned? (hasRoom : names.HasRoom) {call : Call}
    (returned : names.returned? call = some (text, name)) :
    (names.after call).find? text = some name := by
  cases call with
  | intern asked =>
    cases returned
    exact names.find?_intern text
  | tryIntern asked =>
    rw [returned?, hasRoom.tryIntern] at returned
    cases returned
    rw [after, hasRoom.tryIntern]
    exact names.find?_intern text
  | get asked =>
    obtain ⟨_, found, same⟩ := Option.map_eq_some_iff.mp returned
    cases same
    exact found
  | lookup => cases returned

theorem find?_after_of_find? (hasRoom : names.HasRoom) (found : names.find? text = some name)
    (call : Call) : (names.after call).find? text = some name := by
  cases call with
  | intern other => exact find?_intern_of_find? found other
  | tryIntern other =>
    rw [after, hasRoom.tryIntern]
    exact find?_intern_of_find? found other
  | get | lookup => exact found

theorem Reached.knows (reached : Reached calls given names) (hasRoom : names.HasRoom) :
    names.Knows (interned calls) := by
  induction reached with
  | fresh => exact knows_blank.foldl commonWords
  | call reached call earlier =>
    have knows := (earlier hasRoom.of_after).after hasRoom.of_after call
    rw [interned, List.filterMap_cons]
    cases added : call.interned? <;> rw [added] at knows <;> exact knows

/-- A returned handle is found for its text ever after. -/
theorem Reached.find?_of_given (reached : Reached calls given names) (hasRoom : names.HasRoom)
    (mem : (text, name) ∈ given) : names.find? text = some name := by
  induction reached with
  | fresh => cases mem
  | call reached call earlier =>
    obtain returned | mem := List.mem_append.mp mem
    · exact find?_after_of_returned? hasRoom.of_after (Option.mem_toList.mp returned)
    · exact find?_after_of_find? hasRoom.of_after (earlier hasRoom.of_after mem) call

/-- Handles of known texts are told apart by their words just as the texts are. -/
theorem HasRoom.word_eq_iff (hasRoom : names.HasRoom) {other : String} {name' : Name}
    (found : names.find? text = some name) (found' : names.find? other = some name') :
    name.word = name'.word ↔ text = other := by
  rw [Name.word_inj (hasRoom.slot_le found) (hasRoom.slot_le found')]
  constructor
  · rintro rfl
    rw [← lookup_of_find? found, lookup_of_find? found']
  · rintro rfl
    exact Option.some.inj (found.symm.trans found')

/-- Interning is a bijection for a whole session: handles and texts determine one another, every
returned handle keeps its text, a text has a handle just when it was interned, and the size is the
number of distinct texts. -/
theorem Reached.interning_bijective (reached : Reached calls given names)
    (hasRoom : names.HasRoom) :
    (∀ text other name name', names.find? text = some name → names.find? other = some name' →
      (name.word = name'.word ↔ text = other)) ∧
    (∀ text name, (text, name) ∈ given →
      names.find? text = some name ∧ names.lookup (.ofWord name.word) = text) ∧
    (∀ text, (names.find? text).isSome ↔ text ∈ interned calls) ∧
    (∀ text, names.after (.get text) = names) ∧
    (∀ text, names.tryIntern text = .ok (names.intern text)) ∧
    names.size = (interned calls).dedup.length ∧
    ∀ text name, names.find? text = some name →
      (name.isEmpty ↔ text = "") ∧ (name.word = 0 ↔ text = "") := by
  have knows := reached.knows hasRoom
  refine ⟨fun _ _ _ _ => hasRoom.word_eq_iff, ?_, knows.known, fun _ => rfl, hasRoom.tryIntern,
    knows.counted, ?_⟩
  · intro text name mem
    have found := reached.find?_of_given hasRoom mem
    rw [Name.ofWord_word (hasRoom.slot_le found)]
    exact ⟨found, lookup_of_find? found⟩
  · intro text name found
    have told := hasRoom.word_eq_iff found knows.first
    rw [Name.isEmpty, beq_iff_eq, ← Name.word_inj (hasRoom.slot_le found) (Nat.zero_le _)]
    exact ⟨told, told⟩

/-- A run that interns a text twice, asks for one of the words known from the start, and asks for a
text that was never interned. -/
theorem interning_bijective_twice :
    ∃ given names, Reached [.get "beta", .get "int", .tryIntern "alpha", .intern "alpha"] given names ∧
      names.HasRoom ∧ given.length = 3 ∧ names.size = 24 ∧ names.find? "beta" = none ∧
      ∀ text name, (text, name) ∈ given → names.lookup (.ofWord name.word) = text := by
  have reached := (((Reached.fresh.call (.intern "alpha")).call (.tryIntern "alpha")).call
    (.get "int")).call (.get "beta")
  refine ⟨_, _, reached, by decide +kernel, by decide +kernel, by decide +kernel,
    by decide +kernel, ?_⟩
  intro text name mem
  exact ((reached.interning_bijective (by decide +kernel)).2.1 text name mem).2

end IncrementalFrontend.Interner
