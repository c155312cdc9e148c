/-!
Byte ranges of a source text, end exclusive, with offsets of 32 bits.
-/
namespace IncrementalFrontend

structure Span where
  start : Nat
  stop : Nat
deriving DecidableEq, Repr

inductive SpanError where
  | startTooLarge (offset : Nat)
  | endTooLarge (offset : Nat)
deriving DecidableEq, Repr

namespace SpanError

def message : SpanError → String
  | startTooLarge offset => s!"span start {offset} exceeds u32::MAX"
  | endTooLarge offset => s!"span end {offset} exceeds u32::MAX"

end SpanError

namespace Span

def dummy : Span := ⟨0, 0⟩

def point (offset : Nat) : Span := ⟨offset, offset⟩

def offsetBound : Nat := 4294967296

def cutOffset (offset : Nat) : Nat := min offset (offsetBound - 1)

def ofRange (start stop : Nat) : Except SpanError Span :=
  if offsetBound ≤ start then .error (.startTooLarge start)
  else if offsetBound ≤ stop then .error (.endTooLarge stop)
  else .ok ⟨start, stop⟩

def label (span : Span) : String :=
  s!"{span.start}..{span.stop}"

end Span

end IncrementalFrontend
