import IncrementalFrontend.Token.List

/-!
A cursor walks over tokens and never passes the end of the file. The comments of each token it
reaches wait until they are taken or discarded, so each is delivered once and in order.
-/
namespace IncrementalFrontend

structure Cursor where
  consumed : List TokenEntry
  rest : List TokenEntry
  /-- Comments in front of reached tokens, not yet taken. -/
  waiting : List Comment
deriving DecidableEq

namespace Cursor

def ofTokens (entries : List TokenEntry) : Cursor :=
  ⟨[], entries, (entries.head?.map (·.comments)).getD []⟩

def entries (cursor : Cursor) : List TokenEntry :=
  cursor.consumed.reverse ++ cursor.rest

@[simp] theorem entries_ofTokens (tokens : List TokenEntry) : (ofTokens tokens).entries = tokens :=
  rfl

def current (cursor : Cursor) : Token :=
  (cursor.rest.head?.map (·.token)).getD (.endOfFile .dummy)

def kind (cursor : Cursor) : TokenKind :=
  cursor.current.kind

def previousSpan (cursor : Cursor) : Span :=
  ((cursor.consumed.head?.map (·.token)).getD cursor.current).span

def position (cursor : Cursor) : Nat :=
  cursor.consumed.length

def isAt (cursor : Cursor) (kind : TokenKind) : Bool :=
  cursor.kind == kind

def isAtEnd (cursor : Cursor) : Bool :=
  cursor.isAt .endOfFile

def advance (cursor : Cursor) : Cursor :=
  if cursor.isAtEnd then cursor
  else
    match cursor.rest with
    | [] => cursor
    | entry :: rest =>
      ⟨entry :: cursor.consumed, rest,
        cursor.waiting ++ (rest.head?.map (·.comments)).getD []⟩

@[simp] theorem entries_advance (cursor : Cursor) : cursor.advance.entries = cursor.entries := by
  unfold advance entries
  split
  · rfl
  · split
    · rfl
    · simp [*]

theorem position_advance {cursor : Cursor} (inside : cursor.isAtEnd = false) :
    cursor.advance.position = cursor.position + 1 := by
  cases rest : cursor.rest with
  | nil => simp [isAtEnd, isAt, kind, current, rest, Token.endOfFile] at inside
  | cons entry more => simp [advance, inside, rest, position]

theorem advance_of_isAtEnd {cursor : Cursor} (ended : cursor.isAtEnd) : cursor.advance = cursor := by
  simp [advance, ended]

def clearComments (cursor : Cursor) : Cursor :=
  { cursor with waiting := [] }

end Cursor

end IncrementalFrontend
