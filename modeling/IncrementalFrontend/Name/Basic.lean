/-!
Handles of interned texts. A handle names a shard, which the text alone decides, and a position in
that shard, which the order of interning decides. Both are kept in one 32-bit word.
-/
namespace IncrementalFrontend

structure Name where
  shard : Fin 16
  slot : Nat
deriving DecidableEq, Repr

namespace Name

def maxSlot : Nat := 0x0FFFFFFF

def word (name : Name) : UInt32 :=
  UInt32.ofNat name.shard.val <<< 28 ||| UInt32.ofNat name.slot

def ofWord (word : UInt32) : Name :=
  ⟨Fin.ofNat 16 (word >>> 28).toNat, (word &&& UInt32.ofNat maxSlot).toNat⟩

def empty : Name := ⟨0, 0⟩

def isEmpty (name : Name) : Bool :=
  name == empty

def order (a b : Name) : Ordering :=
  (compare a.shard.val b.shard.val).then (compare a.slot b.slot)

theorem order_eq_iff {a b : Name} : a.order b = .eq ↔ a = b := by
  obtain ⟨⟨i, _⟩, k⟩ := a
  obtain ⟨⟨j, _⟩, l⟩ := b
  simp [order, Ordering.then_eq_eq]

theorem order_swap (a b : Name) : (a.order b).swap = b.order a := by
  simp only [order, Ordering.swap_then, Nat.compare_swap]

theorem toNat_word {name : Name} (fits : name.slot ≤ maxSlot) :
    name.word.toNat = name.shard.val * (maxSlot + 1) + name.slot := by
  obtain ⟨⟨shard, isShard⟩, slot⟩ := name
  have room : maxSlot + 1 = 2 ^ 28 := rfl
  have fits : slot < 2 ^ 28 := Nat.lt_succ_of_le fits
  have shard_fits : shard % 2 ^ 32 = shard := by omega
  have slot_fits : slot % 2 ^ 32 = slot := by omega
  have inside : shard * 2 ^ 28 % 2 ^ 32 = shard * 2 ^ 28 := by omega
  rw [word, UInt32.toNat_or, UInt32.toNat_shiftLeft, UInt32.toNat_ofNat', UInt32.toNat_ofNat',
    shard_fits, slot_fits, show (28 : UInt32).toNat % 32 = 28 from rfl, Nat.shiftLeft_eq, inside, room,
    Nat.mul_comm, Nat.two_pow_add_eq_or_of_lt fits]

/-- A handle is recovered from its word. -/
theorem ofWord_word {name : Name} (fits : name.slot ≤ maxSlot) : ofWord name.word = name := by
  have value : name.word.toNat = name.shard.val * 2 ^ 28 + name.slot := toNat_word fits
  obtain ⟨⟨shard, isShard⟩, slot⟩ := name
  have fits : slot < 2 ^ 28 := Nat.lt_succ_of_le fits
  have shard_eq : (shard * 2 ^ 28 + slot) / 2 ^ 28 % 16 = shard := by omega
  have slot_eq : (shard * 2 ^ 28 + slot) % 2 ^ 28 = slot := by omega
  rw [ofWord, mk.injEq, Fin.ext_iff]
  constructor
  · rw [Fin.val_ofNat, UInt32.toNat_shiftRight, value,
      show (28 : UInt32).toNat % 32 = 28 from rfl, Nat.shiftRight_eq_div_pow, shard_eq]
  · rw [UInt32.toNat_and, value, show (UInt32.ofNat maxSlot).toNat = 2 ^ 28 - 1 from rfl,
      Nat.and_two_pow_sub_one_eq_mod, slot_eq]

theorem word_inj {name other : Name} (fits : name.slot ≤ maxSlot) (otherFits : other.slot ≤ maxSlot) :
    name.word = other.word ↔ name = other := by
  constructor
  · intro same
    rw [← ofWord_word fits, same, ofWord_word otherFits]
  · exact congrArg word

def label (name : Name) : String :=
  s!"Name({name.shard.val}:{name.slot})"

end Name

end IncrementalFrontend
