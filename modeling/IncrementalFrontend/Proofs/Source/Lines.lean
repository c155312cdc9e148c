import Mathlib.Algebra.Group.Nat.Defs
import Mathlib.Data.List.Induction
import IncrementalFrontend.Proofs.Source.Location

/-!
Lines and columns count bytes: the line of an offset counts the newlines in front of it, and the
column the bytes behind the last of them. In words of 32 bits no step of this fails.
-/
namespace IncrementalFrontend

def textBytes (text : String) : List UInt8 :=
  text.toByteArray.data.toList

theorem textBytes_eq (text : String) : textBytes text = text.toList.flatMap String.utf8EncodeChar := by
  rw [textBytes, ← String.utf8Encode_toList, List.utf8Encode, List.data_toByteArray]

theorem length_textBytes (text : String) : (textBytes text).length = text.utf8ByteSize := by
  rw [textBytes, Array.length_toList, ← String.size_toByteArray]
  rfl

def newlineByte : UInt8 := 10

/-- The newline is one byte, which is part of no other character. -/
theorem newlineByte_mem_iff {c : Char} : newlineByte ∈ String.utf8EncodeChar c ↔ c = '\n' := by
  have same : c = '\n' ↔ c.val.toNat = 10 := Char.toNat_inj.symm
  rw [same, String.utf8EncodeChar, newlineByte]
  generalize c.val.toNat = value
  split_ifs <;> simp [← UInt8.toNat_inj] <;> omega

def saturated (number : Nat) : Nat :=
  min number (2 ^ 32 - 1)

def word? (number : Nat) : Option Nat :=
  if number < 2 ^ 32 then some number else none

def difference? (number other : Nat) : Option Nat :=
  if other ≤ number then some (number - other) else none

namespace LineIndex

def wordStarts : Nat → List UInt8 → List Nat
  | _, [] => []
  | offset, byte :: rest =>
    if byte = newlineByte then saturated (offset + 1) :: wordStarts (offset + 1) rest
    else wordStarts (offset + 1) rest

def wordLine? (table : Array Nat) (offset : Nat) : Option Nat :=
  match search table offset with
  | .ok line => some line
  | .error next => difference? next 1

/-- The position of an offset by a table in words; none if a step would overflow, fall below zero
or read behind the table. -/
def wordPosition? (table : Array Nat) (offset : Nat) : Option Position := do
  let line ← wordLine? table offset
  let start ← table[line]?
  let distance ← difference? offset start
  let column ← word? (distance + 1)
  some ⟨saturated (line + 1), column⟩

def wordLocation? (table : Array Nat) (path : Name) (span : Span) : Option Location := do
  let first ← wordPosition? table span.start
  let last ← wordPosition? table (max (span.stop - 1) span.start)
  some ⟨path, first, last⟩

variable {offset start : Nat} {bytes front back : List UInt8} {text : String} {path : Name}

theorem wordStarts_append (offset : Nat) (front back : List UInt8) :
    wordStarts offset (front ++ back) =
      wordStarts offset front ++ wordStarts (offset + front.length) back := by
  induction front generalizing offset with
  | nil => rfl
  | cons byte front ih =>
    have shift : offset + (byte :: front).length = offset + 1 + front.length := by
      rw [List.length_cons]; omega
    rw [List.cons_append, wordStarts, wordStarts, ih, shift]
    split <;> rfl

theorem length_wordStarts (offset : Nat) (bytes : List UInt8) :
    (wordStarts offset bytes).length = bytes.count newlineByte := by
  induction bytes generalizing offset with
  | nil => rfl
  | cons byte rest ih =>
    by_cases newline : byte = newlineByte <;> simp [wordStarts, newline, ih]

theorem wordStarts_of_not_mem (free : newlineByte ∉ bytes) : wordStarts offset bytes = [] := by
  rw [← List.length_eq_zero_iff, length_wordStarts, List.count_eq_zero]
  exact free

/-- The lines that start behind an offset start at most one byte behind the bytes read. -/
theorem bounds_of_mem_wordStarts (short : offset + bytes.length < 2 ^ 32)
    (member : start ∈ wordStarts offset bytes) : offset < start ∧ start ≤ offset + bytes.length := by
  induction bytes generalizing offset with
  | nil => cases member
  | cons byte rest ih =>
    rw [List.length_cons] at short ⊢
    simp only [wordStarts] at member
    have later (member : start ∈ wordStarts (offset + 1) rest) := ih (by omega) member
    split at member
    · rcases List.mem_cons.mp member with rfl | member
      · simp only [saturated]; omega
      · have := later member; omega
    · have := later member; omega

def lastLine (bytes : List UInt8) : List UInt8 :=
  bytes.reverse.takeWhile (· ≠ newlineByte)

theorem getLast?_wordStarts (short : offset + bytes.length < 2 ^ 32) :
    (wordStarts offset bytes).getLast?.getD offset + (lastLine bytes).length =
      offset + bytes.length := by
  induction bytes using List.reverseRecOn with
  | nil => rfl
  | append_singleton front byte ih =>
    rw [List.length_append, List.length_singleton] at short ⊢
    have ih := ih (by omega)
    rw [wordStarts_append]
    by_cases newline : byte = newlineByte
    · simp [wordStarts, newline, lastLine, saturated]
      omega
    · simp [wordStarts, newline, lastLine] at ih ⊢
      omega

theorem wordStarts_eq_startsAfter (cs : List Char)
    (short : offset + (cs.flatMap String.utf8EncodeChar).length < 2 ^ 32) :
    wordStarts offset (cs.flatMap String.utf8EncodeChar) = startsAfter offset cs := by
  induction cs generalizing offset with
  | nil => rfl
  | cons c rest ih =>
    rw [List.flatMap_cons, List.length_append, String.length_utf8EncodeChar] at short
    rw [List.flatMap_cons, wordStarts_append, String.length_utf8EncodeChar, ih (by omega)]
    by_cases newline : c = '\n'
    · have encoded : String.utf8EncodeChar '\n' = [newlineByte] := rfl
      have size : Char.utf8Size '\n' = 1 := rfl
      subst newline
      rw [encoded, startsAfter, if_pos rfl]
      simp [wordStarts, saturated, size] at short ⊢
      omega
    · rw [wordStarts_of_not_mem (mt newlineByte_mem_iff.mp newline)]
      simp [startsAfter, newline]

theorem starts_ofText (short : text.utf8ByteSize < 2 ^ 32) :
    (ofText text).starts = (0 :: wordStarts 0 (textBytes text)).toArray := by
  rw [← length_textBytes, textBytes_eq] at short
  rw [ofText, textBytes_eq, wordStarts_eq_startsAfter _ (by omega)]

/-- The line of an offset counts the newlines in front of it, and starts behind the last of them. -/
theorem lineOf_ofText (short : text.utf8ByteSize < 2 ^ 32) (within : offset ≤ text.utf8ByteSize) :
    (ofText text).lineOf offset = ((textBytes text).take offset).count newlineByte ∧
      (ofText text).startOf ((ofText text).lineOf offset) +
        (lastLine ((textBytes text).take offset)).length = offset := by
  rw [← length_textBytes] at short within
  obtain ⟨start, here, le, behind⟩ := (ofText text).lineOf_spec offset
  generalize reached : (textBytes text).take offset = front
  generalize left : (textBytes text).drop offset = back
  have whole : textBytes text = front ++ back := by rw [← reached, ← left, List.take_append_drop]
  have size : front.length = offset := by rw [← reached, List.length_take_of_le within]
  rw [whole, List.length_append, size] at short
  have entries (line : Nat) : (ofText text).starts[line]? =
      ((0 :: wordStarts 0 front) ++ wordStarts offset back)[line]? := by
    rw [starts_ofText (by rw [← length_textBytes, whole, List.length_append, size]; exact short),
      whole, wordStarts_append, size, Nat.zero_add]
    exact List.getElem?_toArray
  have last : (ofText text).starts[front.count newlineByte]? =
      some ((wordStarts 0 front).getLast?.getD 0) := by
    rw [entries, List.getElem?_append_left (by simp [length_wordStarts]), ← List.getLast?_cons,
      List.getLast?_eq_getElem?, List.length_cons, length_wordStarts, Nat.add_sub_cancel]
  have ends : (wordStarts 0 front).getLast?.getD 0 + (lastLine front).length = 0 + front.length :=
    getLast?_wordStarts (by omega)
  have same : (ofText text).lineOf offset = front.count newlineByte := by
    refine Nat.le_antisymm (Nat.le_of_not_lt fun more => ?_) (Nat.le_of_not_lt fun fewer => ?_)
    · -- a line further on starts behind the offset
      rw [entries, List.getElem?_append_right (by rwa [List.length_cons, length_wordStarts])] at here
      have := (bounds_of_mem_wordStarts short (List.mem_of_getElem? here)).1
      omega
    · -- the line behind the last newline starts at or before the offset
      have := behind _ _ last fewer
      omega
  refine ⟨same, ?_⟩
  rw [same, startOf_eq _ last]
  omega

theorem wordLine?_eq (lines : LineIndex) (offset : Nat) :
    wordLine? lines.starts offset = some (lines.lineOf offset) := by
  unfold wordLine? lineOf
  cases same : search lines.starts offset with
  | ok line => rfl
  | error next => exact if_pos (lines.pos_of_miss same)

/-- No step on the way to a position fails in words of 32 bits. -/
theorem wordPosition?_eq (short : text.utf8ByteSize < 2 ^ 32 - 1) (within : offset ≤ text.utf8ByteSize) :
    wordPosition? (0 :: wordStarts 0 (textBytes text)).toArray offset =
      some ((ofText text).position offset) := by
  rw [← starts_ofText (by omega)]
  obtain ⟨start, here, le, -⟩ := (ofText text).lineOf_spec offset
  have line : saturated ((ofText text).lineOf offset + 1) = (ofText text).lineOf offset + 1 := by
    have count : (ofText text).lineOf offset ≤ offset := by
      rw [(lineOf_ofText (by omega) within).1]
      exact Nat.le_trans List.count_le_length (List.length_take_le _ _)
    exact Nat.min_eq_left (by omega)
  have distance : difference? offset start = some (offset - start) := if_pos le
  have column : word? (offset - start + 1) = some (offset - start + 1) := if_pos (by omega)
  simp only [wordPosition?, wordLine?_eq, here, distance, column, line, Option.bind_eq_bind,
    Option.bind_some, position, (ofText text).startOf_eq here]

/-- Positions count lines and columns in bytes, in words of 32 bits and without a fault; they are
strictly increasing, and a location goes from the first byte of its span to the last. -/
theorem position_counts_bytes (text : String) (path : Name) (short : text.utf8ByteSize < 2 ^ 32 - 1) :
    (∀ offset ≤ text.utf8ByteSize,
      wordPosition? (0 :: wordStarts 0 (textBytes text)).toArray offset =
          some ((ofText text).position offset) ∧
        ((ofText text).position offset).line =
          1 + ((textBytes text).take offset).count newlineByte ∧
        ((ofText text).position offset).column =
          1 + (lastLine ((textBytes text).take offset)).length) ∧
    (∀ a b, a < b → b ≤ text.utf8ByteSize →
      ((ofText text).position a).IsBefore ((ofText text).position b) ∧
        (ofText text).position a ≠ (ofText text).position b) ∧
    ∀ span : Span, span.start ≤ span.stop → span.stop ≤ text.utf8ByteSize →
      wordLocation? (0 :: wordStarts 0 (textBytes text)).toArray path span =
          some ((ofText text).location path span) ∧
        (ofText text).location path span = ⟨path, (ofText text).position span.start,
          (ofText text).position (if span.start < span.stop then span.stop - 1 else span.start)⟩ := by
  refine ⟨fun offset within => ⟨wordPosition?_eq short within, ?_⟩, fun a b lt _ => ?_,
    fun span order within => ⟨?_, ?_⟩⟩
  · obtain ⟨line, column⟩ := lineOf_ofText (by omega) within
    simp only [position, line] at column ⊢
    omega
  · have before := (ofText text).isBefore_position lt
    exact ⟨before, before.ne⟩
  · rw [wordLocation?, wordPosition?_eq short (by omega), wordPosition?_eq short (by omega)]
    rfl
  · rw [location]
    congr 2
    split <;> omega

theorem position_counts_bytes_newline : "é\nb\n".utf8ByteSize < 2 ^ 32 - 1 ∧
    (ofText "é\nb\n").position 3 = ⟨2, 1⟩ ∧ (ofText "é\nb\n").position 5 = ⟨3, 1⟩ ∧
    ((ofText "é\nb\n").position 2).IsBefore ((ofText "é\nb\n").position 3) ∧
    ((ofText "é\nb\n").location .empty ⟨0, 3⟩).last = (ofText "é\nb\n").position 2 := by
  have short : "é\nb\n".utf8ByteSize < 2 ^ 32 - 1 := by decide
  obtain ⟨counts, increases, locates⟩ := position_counts_bytes "é\nb\n" .empty short
  have behind := (counts 3 (by decide)).2
  have ends := (counts 5 (by decide)).2
  refine ⟨short, ?_, ?_, (increases 2 3 (by decide) (by decide)).1, ?_⟩
  · exact (congr (congrArg Position.mk behind.1) behind.2 : Position.mk _ _ = Position.mk _ _)
  · exact (congr (congrArg Position.mk ends.1) ends.2 : Position.mk _ _ = Position.mk _ _)
  · rw [(locates ⟨0, 3⟩ (by decide) (by decide)).2]
    rfl

end LineIndex

end IncrementalFrontend
