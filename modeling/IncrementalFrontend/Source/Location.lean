import IncrementalFrontend.Name.Basic
import IncrementalFrontend.Source.Span

/-!
Lines and columns, counted from 1 in bytes. A location names a file and the positions of the first
and the last byte of a construct; the table of line starts turns spans into locations.
-/
namespace IncrementalFrontend

structure Position where
  line : Nat
  column : Nat
deriving DecidableEq, Repr

namespace Position

def unknown : Position := ⟨0, 0⟩

def isUnknown (position : Position) : Bool :=
  position.line == 0

def isAtMost (a b : Position) : Bool :=
  a.line < b.line || a.line == b.line && a.column ≤ b.column

def earlier (a b : Position) : Position :=
  if a.isAtMost b then a else b

def later (a b : Position) : Position :=
  if a.isAtMost b then b else a

def label (position : Position) : String :=
  s!"{position.line}:{position.column}"

end Position

structure Location where
  path : Name
  first : Position
  last : Position
deriving DecidableEq, Repr

namespace Location

def file (path : Name) : Location :=
  ⟨path, .unknown, .unknown⟩

def join (a b : Location) : Location :=
  ⟨a.path, a.first.earlier b.first, a.last.later b.last⟩

end Location

structure LineIndex where
  starts : Array Nat
  first : starts[0]? = some 0
  ascending : starts.toList.Pairwise (· < ·)
deriving DecidableEq

namespace LineIndex

def startsAfter : Nat → List Char → List Nat
  | _, [] => []
  | offset, c :: rest =>
    let next := offset + c.utf8Size
    if c = '\n' then next :: startsAfter next rest else startsAfter next rest

theorem lt_of_mem_startsAfter {offset start : Nat} {text : List Char}
    (member : start ∈ startsAfter offset text) : offset < start := by
  induction text generalizing offset with
  | nil => cases member
  | cons c rest ih =>
    have size := c.utf8Size_pos
    simp only [startsAfter] at member
    split at member
    · rcases List.mem_cons.mp member with rfl | later
      · omega
      · exact Nat.lt_trans (by omega) (ih later)
    · exact Nat.lt_trans (by omega) (ih member)

theorem pairwise_startsAfter (offset : Nat) (text : List Char) :
    (startsAfter offset text).Pairwise (· < ·) := by
  induction text generalizing offset with
  | nil => exact .nil
  | cons c rest ih =>
    simp only [startsAfter]
    split
    · exact .cons (fun _ => lt_of_mem_startsAfter) (ih _)
    · exact ih _

def ofText (text : String) : LineIndex where
  starts := (0 :: startsAfter 0 text.toList).toArray
  first := rfl
  ascending := .cons (fun _ => lt_of_mem_startsAfter) (pairwise_startsAfter 0 text.toList)

def lineCount (lines : LineIndex) : Nat :=
  lines.starts.size

@[simp] theorem lineCount_ofText (text : String) :
    (ofText text).lineCount = text.toList.count '\n' + 1 := by
  have count (offset : Nat) (cs : List Char) : (startsAfter offset cs).length = cs.count '\n' := by
    induction cs generalizing offset with
    | nil => rfl
    | cons c rest ih =>
      by_cases newline : c = '\n' <;> simp [startsAfter, newline, ih]
  simp [ofText, lineCount, count]

def searchBetween (table : Array Nat) (value low high : Nat) (within : high ≤ table.size) :
    Except Nat Nat :=
  if open_ : low < high then
    let middle := low + (high - low) / 2
    if table[middle] = value then .ok middle
    else if table[middle] < value then searchBetween table value (middle + 1) high within
    else searchBetween table value low middle (by omega)
  else .error low
termination_by high - low

def search (table : Array Nat) (value : Nat) : Except Nat Nat :=
  searchBetween table value 0 table.size (Nat.le_refl _)

def lineOf (lines : LineIndex) (offset : Nat) : Nat :=
  match search lines.starts offset with
  | .ok line => line
  | .error next => next - 1

def startOf (lines : LineIndex) (line : Nat) : Nat :=
  lines.starts[line]?.getD 0

def position (lines : LineIndex) (offset : Nat) : Position :=
  let line := lines.lineOf offset
  ⟨line + 1, offset - lines.startOf line + 1⟩

/-- The location of a span: its first byte and its last byte, or twice the first if it is empty. -/
def location (lines : LineIndex) (path : Name) (span : Span) : Location :=
  ⟨path, lines.position span.start, lines.position (max (span.stop - 1) span.start)⟩

end LineIndex

end IncrementalFrontend
