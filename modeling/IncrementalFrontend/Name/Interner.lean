import IncrementalFrontend.Name.Basic

/-!
The interner keeps every text once and names it by a handle that stays valid as more texts come.
The empty text and the words that every source asks for are there from the start.
-/
namespace IncrementalFrontend

def Name.digest (text : String) : UInt32 :=
  (text.toUTF8.toList.take 8).foldl (fun value byte => value * 31 + byte.toUInt32) 0

def Name.shardOf (text : String) : Fin 16 :=
  ⟨(Name.digest text).toNat % 16, Nat.mod_lt _ (Nat.zero_lt_succ 15)⟩

structure Shard where
  slots : List (String × Nat)
  texts : List String
  inStep : ∀ text slot, slots.lookup text = some slot ↔ texts[slot]? = some text
deriving DecidableEq

namespace Shard

def empty : Shard :=
  ⟨[], [], by simp⟩

def add (shard : Shard) (text : String) (isNew : shard.slots.lookup text = none) : Shard where
  slots := (text, shard.texts.length) :: shard.slots
  texts := shard.texts ++ [text]
  inStep := by
    intro other slot
    by_cases same : other = text
    · subst same
      have absent : shard.texts[slot]? ≠ some other := by
        rw [ne_eq, ← shard.inStep, isNew]
        nofun
      rw [List.lookup_cons_self, Option.some.injEq, List.getElem?_append]
      split
      · have inside : shard.texts.length ≠ slot := by omega
        simp [absent, inside]
      · have : shard.texts.length = slot ↔ slot - shard.texts.length = 0 := by omega
        simp [List.getElem?_singleton, this]
    · have different : (other == text) = false := by simpa using same
      rw [List.lookup_cons, different, shard.inStep, List.getElem?_append]
      split
      · rfl
      · simp [List.getElem?_eq_none (by omega : shard.texts.length ≤ slot),
          List.getElem?_singleton, Ne.symm same]

end Shard

inductive InternError where
  | shardOverflow (shard : Fin 16) (count : Nat)
deriving DecidableEq, Repr

def InternError.message : InternError → String
  | shardOverflow shard count =>
    s!"interner shard {shard.val} exceeded capacity: {count} strings, max is {Name.maxSlot}"

structure Interner where
  shards : Vector Shard 16
  count : Nat
deriving DecidableEq

namespace Interner

def blank : Interner :=
  ⟨(Vector.replicate 16 .empty).set 0 (Shard.empty.add "" rfl), 1⟩

def find? (names : Interner) (text : String) : Option Name :=
  let shard := Name.shardOf text
  (names.shards[shard].slots.lookup text).map (⟨shard, ·⟩)

def next (names : Interner) (text : String) : Name :=
  let shard := Name.shardOf text
  ⟨shard, names.shards[shard].texts.length⟩

def add (names : Interner) (text : String) (isNew : names.find? text = none) : Interner :=
  let shard := Name.shardOf text
  ⟨names.shards.set shard (names.shards[shard].add text (Option.map_eq_none_iff.mp isNew)),
    names.count + 1⟩

def intern (names : Interner) (text : String) : Name × Interner :=
  match isNew : names.find? text with
  | some name => (name, names)
  | none => (names.next text, names.add text isNew)

def tryIntern (names : Interner) (text : String) : Except InternError (Name × Interner) :=
  match isNew : names.find? text with
  | some name => .ok (name, names)
  | none =>
    let name := names.next text
    if name.slot ≤ Name.maxSlot then .ok (name, names.add text isNew)
    else .error (.shardOverflow name.shard name.slot)

/-- The text of a handle; a handle that this interner never gave stands for the empty text. -/
def lookup (names : Interner) (name : Name) : String :=
  (names.shards[name.shard].texts[name.slot]?).getD ""

theorem find?_eq_some_iff {names : Interner} {text : String} {name : Name} :
    names.find? text = some name ↔
      name.shard = Name.shardOf text ∧ names.shards[name.shard].texts[name.slot]? = some text := by
  rw [find?, Option.map_eq_some_iff]
  constructor
  · rintro ⟨slot, found, rfl⟩
    exact ⟨rfl, (Shard.inStep _ text slot).mp found⟩
  · obtain ⟨shard, slot⟩ := name
    rintro ⟨rfl, stands⟩
    exact ⟨slot, (Shard.inStep _ text slot).mpr stands, rfl⟩

theorem lookup_of_find? {names : Interner} {text : String} {name : Name}
    (found : names.find? text = some name) : names.lookup name = text := by
  rw [lookup, (find?_eq_some_iff.mp found).2, Option.getD_some]

/-- What an interner finds once it has a new text. -/
theorem find?_add {names : Interner} {text : String} (isNew : names.find? text = none)
    (other : String) :
    (names.add text isNew).find? other =
      if other = text then some (names.next text) else names.find? other := by
  split
  case isTrue same =>
    subst same
    simp [find?, add, next, Shard.add]
  case isFalse different =>
    have different : (other == text) = false := by simpa using different
    by_cases same : Name.shardOf text = Name.shardOf other
    · simp [find?, add, Shard.add, same, List.lookup_cons, different]
    · have := Fin.val_ne_of_ne same
      simp [find?, add, this]

theorem find?_intern (names : Interner) (text : String) :
    (names.intern text).2.find? text = some (names.intern text).1 := by
  unfold intern
  split
  · assumption
  · rw [find?_add, if_pos rfl]

theorem lookup_intern (names : Interner) (text : String) :
    (names.intern text).2.lookup (names.intern text).1 = text :=
  lookup_of_find? (names.find?_intern text)

/-- A text keeps its handle when another one is interned. -/
theorem find?_intern_of_find? {names : Interner} {text : String} {name : Name}
    (found : names.find? text = some name) (other : String) :
    (names.intern other).2.find? text = some name := by
  unfold intern
  split
  · exact found
  · rename_i isNew
    rw [find?_add, if_neg, found]
    rintro rfl
    cases isNew.symm.trans found

def size (names : Interner) : Nat :=
  names.count

def isEmpty (names : Interner) : Bool :=
  names.size ≤ 1

def commonWords : List String :=
  ["bool", "const", "enum", "export", "extern", "inline", "int", "module", "override", "param",
    "private", "proc", "prototype", "public", "real", "ref", "return", "string", "throws", "type",
    "var", "where"]

def fresh : Interner :=
  commonWords.foldl (fun names word => (names.intern word).2) blank

def label (names : Interner) : String :=
  s!"StringInterner \x7b len: {names.size}, .. \x7d"

end Interner

end IncrementalFrontend
