import Mathlib.Data.List.Basic
import IncrementalFrontend.Token.Cursor

/-!
Walks of a cursor. Whoever only advances stays on the same tokens, and the comments of the tokens that
come into reach wait in their order.
-/
namespace IncrementalFrontend

section

variable (entries : List TokenEntry)

def tokenAt (index : Nat) : Token :=
  (entries[index]?.map TokenEntry.token).getD (.endOfFile .dummy)

def spanAt (index : Nat) : Span :=
  (tokenAt entries index).span

def extent (first last : Nat) : Span :=
  ⟨(spanAt entries first).start, max (spanAt entries last).stop (spanAt entries first).stop⟩

def commentsAt (index : Nat) : List Comment :=
  (entries[index]?.map TokenEntry.comments).getD []

def indicesBetween (first last : Nat) : List Nat :=
  List.range' (first + 1) (last - first)

end

theorem mem_indicesBetween {index first last : Nat} :
    index ∈ indicesBetween first last ↔ first < index ∧ index ≤ last := by
  rw [indicesBetween, List.mem_range'_1]
  omega

theorem indicesBetween_self (index : Nat) : indicesBetween index index = [] := by
  rw [indicesBetween, Nat.sub_self]
  rfl

theorem indicesBetween_succ (index : Nat) : indicesBetween index (index + 1) = [index + 1] := by
  rw [indicesBetween, Nat.add_sub_cancel_left]
  rfl

theorem indicesBetween_append {first middle last : Nat} (le : first ≤ middle) (le' : middle ≤ last) :
    indicesBetween first middle ++ indicesBetween middle last = indicesBetween first last := by
  have split : middle + 1 = first + 1 + 1 * (middle - first) := by omega
  rw [indicesBetween, indicesBetween, indicesBetween, split, List.range'_append]
  congr 1
  omega

namespace Cursor

variable {cursor mid last : Cursor}

inductive Walks : Cursor → Cursor → Prop where
  | refl (cursor : Cursor) : Walks cursor cursor
  | step {cursor last : Cursor} (further : Walks cursor.advance last) : Walks cursor last

theorem Walks.advance (cursor : Cursor) : cursor.Walks cursor.advance :=
  .step (.refl _)

theorem Walks.trans (first : cursor.Walks mid) (second : mid.Walks last) : cursor.Walks last := by
  induction first with
  | refl => exact second
  | step _ ih => exact .step (ih second)

/-- At the end of the file nothing happens, and elsewhere the next token comes into reach. -/
theorem advance_cases (cursor : Cursor) : cursor.advance = cursor ∨
    ∃ entry rest, cursor.rest = entry :: rest ∧ cursor.advance =
      ⟨entry :: cursor.consumed, rest, cursor.waiting ++ (rest.head?.map (·.comments)).getD []⟩ := by
  unfold Cursor.advance
  split
  · exact .inl rfl
  · split
    · exact .inl rfl
    · exact .inr ⟨_, _, by assumption, rfl⟩

theorem Walks.entries_eq (walks : cursor.Walks last) : last.entries = cursor.entries := by
  induction walks with
  | refl => rfl
  | step _ ih => rw [ih, entries_advance]

theorem Walks.position_le (walks : cursor.Walks last) : cursor.position ≤ last.position := by
  induction walks with
  | refl => exact Nat.le_refl _
  | @step cursor _ _ ih =>
    rcases cursor.advance_cases with same | ⟨entry, rest, -, same⟩
    · rwa [same] at ih
    · rw [same] at ih
      exact Nat.le_of_succ_le ih

theorem rest_eq_drop (cursor : Cursor) : cursor.rest = cursor.entries.drop cursor.position := by
  simp [entries, position]

theorem getElem?_position (cursor : Cursor) :
    cursor.entries[cursor.position]? = cursor.rest.head? := by
  rw [cursor.rest_eq_drop, List.head?_drop]

theorem current_eq (cursor : Cursor) : cursor.current = tokenAt cursor.entries cursor.position := by
  rw [tokenAt, getElem?_position]
  rfl

theorem previousSpan_eq (further : 0 < cursor.position) :
    cursor.previousSpan = spanAt cursor.entries (cursor.position - 1) := by
  cases consumed : cursor.consumed with
  | nil => simp [position, consumed] at further
  | cons entry others => simp [previousSpan, spanAt, tokenAt, entries, position, consumed]

/-- The comments of the tokens that came into reach wait behind those that waited. -/
theorem Walks.waiting_eq (walks : cursor.Walks last) : last.waiting = cursor.waiting ++
    (indicesBetween cursor.position last.position).flatMap (commentsAt cursor.entries) := by
  induction walks with
  | refl cursor => rw [indicesBetween_self, List.flatMap_nil, List.append_nil]
  | @step cursor last further ih =>
    rcases cursor.advance_cases with same | ⟨entry, rest, remaining, same⟩
    · rwa [same] at ih
    · have moved : cursor.advance.position = cursor.position + 1 := by rw [same]; rfl
      have reached : commentsAt cursor.entries (cursor.position + 1) =
          (rest.head?.map (·.comments)).getD [] := by
        rw [commentsAt, ← moved, ← entries_advance, getElem?_position, same]
      have waiting : cursor.advance.waiting =
          cursor.waiting ++ commentsAt cursor.entries (cursor.position + 1) := by
        rw [same, reached]
      have position := further.position_le
      rw [moved] at position ih
      rw [ih, waiting, entries_advance, ← indicesBetween_append (Nat.le_succ _) position,
        indicesBetween_succ, List.flatMap_append, List.flatMap_singleton, List.append_assoc]

end Cursor

end IncrementalFrontend
