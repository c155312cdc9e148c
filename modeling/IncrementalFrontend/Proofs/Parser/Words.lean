import Mathlib.Data.List.Basic
import Mathlib.Tactic.SplitIfs
import IncrementalFrontend.Parser.Basic

/-!
What a parser reads is a word: the kinds of the tokens between the cursor before and the cursor
after. Words are compared by their braces, since braces bound what an error can spoil.
-/
namespace IncrementalFrontend

def TokenKind.isPlain : TokenKind → Bool
  | .endOfFile | .symbol .braceOpen | .symbol .braceClose => false
  | _ => true

theorem TokenKind.ne_endOfFile {kind : TokenKind} (plain : kind.isPlain) : kind ≠ .endOfFile := by
  rintro rfl
  cases plain

def TokenKind.first (kinds : List TokenKind) : TokenKind :=
  kinds.head?.getD .endOfFile

def Cursor.kinds (cursor : Cursor) : List TokenKind :=
  cursor.rest.map (·.token.kind)

namespace Cursor

variable {cursor : Cursor}

theorem kind_eq_first (cursor : Cursor) : cursor.kind = .first cursor.kinds := by
  obtain ⟨consumed, rest, waiting⟩ := cursor
  cases rest <;> rfl

theorem isAt_iff {kind : TokenKind} : cursor.isAt kind = true ↔ cursor.kind = kind :=
  beq_iff_eq

theorem isAtEnd_iff : cursor.isAtEnd = true ↔ cursor.kind = .endOfFile :=
  isAt_iff

theorem kinds_eq_cons (inside : cursor.kind ≠ .endOfFile) :
    cursor.kinds = cursor.kind :: cursor.advance.kinds := by
  have notEnd : ¬ cursor.isAtEnd = true := fun ended => inside (isAtEnd_iff.mp ended)
  obtain ⟨consumed, rest, waiting⟩ := cursor
  cases rest with
  | nil => exact absurd rfl inside
  | cons entry rest => simp [kinds, kind, current, advance, notEnd]

theorem isAtEnd_eq_false {kind : TokenKind} (current : cursor.kind = kind)
    (inside : kind ≠ .endOfFile) : cursor.isAtEnd = false :=
  Bool.eq_false_iff.mpr fun ended => inside (current.symm.trans (isAtEnd_iff.mp ended))

theorem kinds_advance {kind : TokenKind} {rest : List TokenKind}
    (kinds : cursor.kinds = kind :: rest) (inside : kind ≠ .endOfFile) :
    cursor.kind = kind ∧ cursor.advance.kinds = rest := by
  have current : cursor.kind = kind := by
    rw [kind_eq_first, kinds]
    rfl
  refine ⟨current, ?_⟩
  have split := kinds_eq_cons (current ▸ inside)
  rw [kinds, List.cons.injEq] at split
  exact split.2.symm

end Cursor

def openBraces (depth : Nat) : List TokenKind → Option Nat
  | [] => some depth
  | kind :: rest =>
    if kind = .symbol .braceOpen then openBraces (depth + 1) rest
    else if kind = .symbol .braceClose then
      match depth with
      | 0 => none
      | outer + 1 => openBraces outer rest
    else openBraces depth rest

def IsBalanced (word : List TokenKind) : Prop :=
  openBraces 0 word = some 0

instance (word : List TokenKind) : Decidable (IsBalanced word) :=
  inferInstanceAs (Decidable (_ = _))

/-- The place of the brace that closes the last one still open, before the end of the file. -/
def closingBrace? (depth : Nat) : List TokenKind → Option Nat
  | [] => none
  | kind :: rest =>
    if kind = .endOfFile then none
    else if kind = .symbol .braceOpen then (closingBrace? (depth + 1) rest).map (· + 1)
    else if kind = .symbol .braceClose then
      match depth with
      | 0 => some 0
      | outer + 1 => (closingBrace? outer rest).map (· + 1)
    else (closingBrace? depth rest).map (· + 1)

@[simp] theorem openBraces_nil (depth : Nat) : openBraces depth [] = some depth :=
  rfl

@[simp] theorem openBraces_open (depth : Nat) (rest : List TokenKind) :
    openBraces depth (.symbol .braceOpen :: rest) = openBraces (depth + 1) rest := by
  simp [openBraces]

@[simp] theorem openBraces_close (depth : Nat) (rest : List TokenKind) :
    openBraces (depth + 1) (.symbol .braceClose :: rest) = openBraces depth rest := by
  simp [openBraces]

@[simp] theorem openBraces_zero_close (rest : List TokenKind) :
    openBraces 0 (.symbol .braceClose :: rest) = none := by
  simp [openBraces]

theorem openBraces_other {kind : TokenKind} (opens : kind ≠ .symbol .braceOpen)
    (closes : kind ≠ .symbol .braceClose) (depth : Nat) (rest : List TokenKind) :
    openBraces depth (kind :: rest) = openBraces depth rest := by
  simp [openBraces, opens, closes]

theorem openBraces_of_plain {word : List TokenKind} (plain : ∀ kind ∈ word, kind.isPlain)
    (depth : Nat) : openBraces depth word = some depth := by
  induction word with
  | nil => rfl
  | cons kind rest ih =>
    obtain ⟨first, others⟩ := List.forall_mem_cons.mp plain
    have opens : kind ≠ .symbol .braceOpen := by rintro rfl; cases first
    have closes : kind ≠ .symbol .braceClose := by rintro rfl; cases first
    rw [openBraces_other opens closes, ih others]

theorem openBraces_append (depth : Nat) (word more : List TokenKind) :
    openBraces depth (word ++ more) = (openBraces depth word).bind (openBraces · more) := by
  induction word generalizing depth with
  | nil => rfl
  | cons kind rest ih =>
    by_cases opens : kind = .symbol .braceOpen
    · simpa [opens] using ih (depth + 1)
    by_cases closes : kind = .symbol .braceClose
    · cases depth with
      | zero => simp [closes]
      | succ outer => simpa [closes] using ih outer
    simpa [openBraces_other opens closes] using ih depth

/-- Braces around a word stay open. -/
theorem openBraces_add {depth opened : Nat} {word : List TokenKind} (outer : Nat)
    (walk : openBraces depth word = some opened) :
    openBraces (depth + outer) word = some (opened + outer) := by
  induction word generalizing depth with
  | nil => cases walk; rfl
  | cons kind rest ih =>
    by_cases opens : kind = .symbol .braceOpen
    · subst opens
      rw [openBraces_open] at walk ⊢
      rw [Nat.add_right_comm]
      exact ih walk
    by_cases closes : kind = .symbol .braceClose
    · subst closes
      cases depth with
      | zero => simp at walk
      | succ depth =>
        rw [openBraces_close] at walk
        rw [Nat.add_right_comm, openBraces_close]
        exact ih walk
    rw [openBraces_other opens closes] at walk ⊢
    exact ih walk

theorem closingBrace?_append {depth opened : Nat} {word : List TokenKind}
    (inside : .endOfFile ∉ word) (walk : openBraces depth word = some opened)
    (more : List TokenKind) :
    closingBrace? depth (word ++ more) = (closingBrace? opened more).map (· + word.length) := by
  induction word generalizing depth with
  | nil => cases walk; simp
  | cons kind rest ih =>
    obtain ⟨notEnd, further⟩ := not_or.mp (List.mem_cons.not.mp inside)
    have shift (place : Option Nat) :
        (place.map (· + rest.length)).map (· + 1) = place.map (· + (kind :: rest).length) := by
      cases place <;> rfl
    by_cases opens : kind = .symbol .braceOpen
    · subst opens
      rw [← shift, ← ih further (openBraces_open depth rest ▸ walk)]
      simp [closingBrace?]
    by_cases closes : kind = .symbol .braceClose
    · subst closes
      cases depth with
      | zero => simp at walk
      | succ depth =>
        rw [← shift, ← ih further (openBraces_close depth rest ▸ walk)]
        simp [closingBrace?]
    rw [← shift, ← ih further (openBraces_other opens closes depth rest ▸ walk)]
    simp [closingBrace?, Ne.symm notEnd, opens, closes]

/-- A balanced word ends where the brace around it closes. -/
theorem IsBalanced.closingBrace?_eq {word : List TokenKind} (balanced : IsBalanced word)
    (inside : .endOfFile ∉ word) (more : List TokenKind) :
    closingBrace? 0 (word ++ .symbol .braceClose :: more) = some word.length := by
  rw [closingBrace?_append inside balanced]
  simp [closingBrace?]

end IncrementalFrontend
