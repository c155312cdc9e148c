import Mathlib.Data.List.TakeWhile
import Mathlib.Data.String.Basic
import IncrementalFrontend.Token.List

/-!
The lexemes of a text tile it: each stands where the text reads so, one after the other, and only
blank characters are left between them.
-/
namespace IncrementalFrontend

namespace Lexeme

theorem byteSize_eq_utf8Len (cs : List Char) : byteSize cs = String.utf8Len cs := by
  induction cs with
  | nil => rfl
  | cons c rest ih => simp [byteSize, ih, Nat.add_comm]

theorem byteSize_toList (text : String) : byteSize text.toList = text.utf8ByteSize := by
  rw [byteSize_eq_utf8Len, ← String.utf8ByteSize_ofList, String.ofList_toList]

theorem byteSize_pos {cs : List Char} (filled : cs ≠ []) : 0 < byteSize cs := by
  cases cs with
  | nil => contradiction
  | cons c rest =>
    have := c.utf8Size_pos
    simp only [byteSize]
    omega

def IsFirst (lexeme : Lexeme) (back : List Char) : Prop :=
  ∃ c rest, ¬ isBlank c ∧ lexeme.text = c :: rest ∧ lexeme.shape = (shapeOf c (rest ++ back)).1 ∧
    rest = (rest ++ back).take (shapeOf c (rest ++ back)).2

inductive Tiles : Nat → List Char → List Lexeme → Prop where
  | blank {offset : Nat} {gap : List Char} (blank : ∀ c ∈ gap, isBlank c) : Tiles offset gap []
  | lexeme {offset : Nat} {back : List Char} {more : List Lexeme} (gap : List Char)
      (lexeme : Lexeme) (blank : ∀ c ∈ gap, isBlank c) (start : lexeme.span.start = offset + byteSize gap)
      (stop : lexeme.span.stop = lexeme.span.start + byteSize lexeme.text)
      (first : lexeme.IsFirst back) (rest : Tiles lexeme.span.stop back more) :
      Tiles offset (gap ++ (lexeme.text ++ back)) (lexeme :: more)

theorem Tiles.behindBlank {c : Char} {offset : Nat} {cs : List Char} {lexemes : List Lexeme}
    (tiles : Tiles (offset + c.utf8Size) cs lexemes) (blank : isBlank c) :
    Tiles offset (c :: cs) lexemes := by
  cases tiles with
  | blank others => exact .blank (by simp [blank]; exact others)
  | lexeme gap lexeme others start stop first rest =>
    refine .lexeme (c :: gap) lexeme (by simp [blank]; exact others) ?_ stop first rest
    simp [start, byteSize, Nat.add_assoc]

theorem tiles_scan (offset : Nat) (cs : List Char) : Tiles offset cs (scan offset cs) := by
  fun_induction scan offset cs with
  | case1 => exact .blank (by simp)
  | case2 offset c rest blank ih => exact ih.behindBlank blank
  | case3 offset c rest visible shape length found text stop ih =>
    have split : rest.take length ++ rest.drop length = rest := List.take_append_drop length rest
    have tiles : Tiles offset ([] ++ (text ++ rest.drop length))
        (⟨shape, text, ⟨offset, stop⟩⟩ :: scan stop (rest.drop length)) := by
      apply Tiles.lexeme [] ⟨shape, text, ⟨offset, stop⟩⟩ _ _ rfl _ ih
      · simp
      · simp [byteSize]
      · exact ⟨c, rest.take length, by simpa using visible, rfl, by simp [split, found],
          by simp [split, found]⟩
    simpa [text, split] using tiles

def openComments (depth : Nat) : List Char → Nat
  | [] => depth
  | '/' :: '*' :: rest => openComments (depth + 1) rest
  | '*' :: '/' :: rest => openComments (depth - 1) rest
  | _ :: rest => openComments depth rest

theorem openComments_other {c : Char} {rest : List Char} (depth : Nat)
    (opens : c = '/' → rest.head? ≠ some '*') (closes : c = '*' → rest.head? ≠ some '/') :
    openComments depth (c :: rest) = openComments depth rest := by
  apply openComments.eq_4
  · intro more slash star
    simp [star] at opens
    contradiction
  · intro more star slash
    simp [slash] at closes
    contradiction

structure HoldsComments (depth : Nat) (cs : List Char) (length : Nat) (isClosed : Bool) : Prop where
  bound : length ≤ cs.length
  ended : isClosed = false → length = cs.length
  closed : openComments depth (cs.take length) = 0 ↔ isClosed = true
  opened : ∀ count < length, openComments depth (cs.take count) ≠ 0

namespace HoldsComments

variable {depth inner length : Nat} {rest : List Char} {isClosed : Bool}

theorem nothing (rest : List Char) : HoldsComments 0 rest 0 true := by
  constructor <;> simp [openComments]

/-- Two characters that open or close a comment. -/
theorem delimiter {a b : Char} (holds : HoldsComments inner rest length isClosed)
    (same : ∀ rest, openComments (depth + 1) (a :: b :: rest) = openComments inner rest) :
    HoldsComments (depth + 1) (a :: b :: rest) (length + 2) isClosed := by
  constructor
  · simpa using holds.bound
  · simpa using holds.ended
  · simpa [same] using holds.closed
  · intro count less
    match count with
    | 0 => simp [openComments]
    | 1 => simp [openComments]
    | count + 2 => simpa [same] using holds.opened count (by omega)

theorem other {c : Char} (holds : HoldsComments (depth + 1) rest length isClosed)
    (opens : ∀ more, c = '/' → rest = '*' :: more → False)
    (closes : ∀ more, c = '*' → rest = '/' :: more → False) :
    HoldsComments (depth + 1) (c :: rest) (length + 1) isClosed := by
  have skips (count : Nat) :
      openComments (depth + 1) (c :: rest.take count) = openComments (depth + 1) (rest.take count) := by
    cases rest with
    | nil => apply openComments_other <;> simp
    | cons d rest =>
      cases count with
      | zero => apply openComments_other <;> simp
      | succ count => apply openComments_other <;> simp_all
  constructor
  · simpa using holds.bound
  · simpa using holds.ended
  · simpa [skips] using holds.closed
  · intro count less
    cases count with
    | zero => simp [openComments]
    | succ count => simpa [skips] using holds.opened count (by omega)

end HoldsComments

/-- A block comment goes on as long as a comment is open in it. -/
theorem holdsComments_commentRest (depth : Nat) (cs : List Char) :
    HoldsComments (depth + 1) cs (commentRest depth cs).1 (commentRest depth cs).2 := by
  fun_induction commentRest depth cs with
  | case1 depth => constructor <;> simp [openComments]
  | case2 depth rest length isClosed found ih =>
    rw [found] at ih
    exact ih.delimiter fun rest => rfl
  | case3 rest => exact (HoldsComments.nothing rest).delimiter fun rest => rfl
  | case4 rest outer length isClosed found ih =>
    rw [found] at ih
    exact ih.delimiter fun rest => rfl
  | case5 depth c rest noOpen noClose length isClosed found ih =>
    rw [found] at ih
    exact ih.other noOpen noClose

theorem shapeOf_lineComment {c : Char} {cs : List Char} (line : (shapeOf c cs).1 = .lineComment) :
    c = '/' ∧ cs.head? = some '/' ∧ (shapeOf c cs).2 = (cs.takeWhile (· ≠ '\n')).length := by
  unfold shapeOf at line ⊢
  split_ifs at line ⊢ <;> simp_all
  split at line <;> simp_all

theorem shapeOf_blockComment {c : Char} {cs : List Char} {isClosed : Bool}
    (block : (shapeOf c cs).1 = .blockComment isClosed) :
    c = '/' ∧ cs.head? = some '*' ∧ (shapeOf c cs).2 = (commentRest 0 cs.tail).1 + 1 ∧
      isClosed = (commentRest 0 cs.tail).2 := by
  unfold shapeOf at block ⊢
  split_ifs at block ⊢ <;> simp_all
  split at block <;> simp_all

end Lexeme

/-- How a comment is written, with `back` behind it: a line comment goes on to the end of its line, a
block comment up to the place where no comment is open, or to the end of the text. -/
def CommentStyle.Spells : CommentStyle → (piece back : List Char) → Prop
  | .line, piece, back =>
    (∃ body, piece = '/' :: '/' :: body ∧ '\n' ∉ body) ∧ (back = [] ∨ back.head? = some '\n')
  | .block, piece, back =>
    (∃ body, piece = '/' :: '*' :: body) ∧
      (∀ front, front <+: piece → 2 ≤ front.length → front ≠ piece → Lexeme.openComments 0 front ≠ 0) ∧
      (Lexeme.openComments 0 piece ≠ 0 → back = [])

namespace Lexeme

theorem takeWhile_of_taken {p : Char → Bool} {rest back : List Char}
    (taken : rest = (rest ++ back).take ((rest ++ back).takeWhile p).length) :
    (∀ c ∈ rest, p c) ∧ ∀ c ∈ back.head?, ¬ p c := by
  have whole : rest = (rest ++ back).takeWhile p := by
    have longest := List.prefix_iff_eq_take.mp (List.takeWhile_prefix (l := rest ++ back) p)
    exact taken.trans longest.symm
  have behind : back = (rest ++ back).dropWhile p := by
    have split := List.takeWhile_append_dropWhile (p := p) (l := rest ++ back)
    rw [← whole] at split
    exact (List.append_cancel_left split).symm
  constructor
  · intro c member
    rw [whole] at member
    exact List.mem_takeWhile_imp member
  · intro c head
    have stops := List.head?_dropWhile_not p (rest ++ back)
    rw [← behind, head] at stops
    simpa using stops

theorem IsFirst.spells_line {lexeme : Lexeme} {back : List Char} (first : lexeme.IsFirst back)
    (line : lexeme.shape = .lineComment) : CommentStyle.line.Spells lexeme.text back := by
  obtain ⟨c, rest, -, text, shape, taken⟩ := first
  obtain ⟨rfl, slash, length⟩ := shapeOf_lineComment (shape.symm.trans line)
  rw [length] at taken
  obtain ⟨inside, behind⟩ := takeWhile_of_taken taken
  rw [text]
  constructor
  · cases rest with
    | nil =>
      have stops := behind '/' slash
      simp at stops
    | cons d body =>
      obtain rfl : d = '/' := by simpa using slash
      refine ⟨body, rfl, fun member => ?_⟩
      simpa using inside '\n' (List.mem_cons_of_mem _ member)
  · cases back with
    | nil => simp
    | cons d back => simpa using behind d rfl

theorem IsFirst.spells_block {lexeme : Lexeme} {back : List Char} {isClosed : Bool}
    (first : lexeme.IsFirst back) (block : lexeme.shape = .blockComment isClosed) :
    CommentStyle.block.Spells lexeme.text back ∧
      (openComments 0 lexeme.text = 0 ↔ isClosed = true) := by
  obtain ⟨c, rest, -, text, shape, taken⟩ := first
  obtain ⟨rfl, star, length, rfl⟩ := shapeOf_blockComment (shape.symm.trans block)
  rw [length] at taken
  obtain ⟨body, rfl⟩ : ∃ body, rest = '*' :: body := by
    cases rest with
    | nil =>
      have := congrArg List.length taken
      cases back <;> simp at star this
    | cons d body =>
      obtain rfl : d = '*' := by simpa using star
      exact ⟨body, rfl⟩
  have holds := holdsComments_commentRest 0 (body ++ back)
  have taken : (body ++ back).take (commentRest 0 (body ++ back)).1 = body := by
    simpa using taken.symm
  have size : body.length = (commentRest 0 (body ++ back)).1 := by
    have bound := holds.bound
    have length := congrArg List.length taken
    rw [List.length_take] at length
    omega
  have opens (front : List Char) : openComments 0 ('/' :: '*' :: front) = openComments 1 front := rfl
  have closed : openComments 0 lexeme.text = 0 ↔ (commentRest 0 (body ++ back)).2 = true := by
    rw [text, opens]
    simpa [taken] using holds.closed
  rw [List.cons_append, List.tail_cons]
  refine ⟨⟨⟨body, text⟩, ?_, ?_⟩, closed⟩
  · intro front inside long proper
    rw [text] at inside proper
    obtain ⟨inner, rfl⟩ : ∃ inner, front = '/' :: '*' :: inner := by
      match front, long with
      | a :: b :: inner, _ =>
        simp only [List.cons_prefix_cons] at inside
        obtain ⟨rfl, rfl, -⟩ := inside
        exact ⟨inner, rfl⟩
    have inside : inner <+: body := by simpa using inside
    have shorter : inner.length < body.length := by
      apply lt_of_le_of_ne inside.length_le
      intro same
      exact proper (by rw [inside.eq_of_length same])
    have opened := holds.opened inner.length (by omega)
    have front := List.prefix_iff_eq_take.mp (inside.trans (List.prefix_append body back))
    rwa [← front] at opened
  · intro opened
    have ended := holds.ended (by simpa using closed.not.mp opened)
    rw [List.length_append] at ended
    apply List.eq_nil_of_length_eq_zero
    omega

namespace Tiles

variable {offset : Nat} {cs : List Char} {lexemes : List Lexeme}

/-- Each lexeme stands where the characters read so. -/
theorem exists_place (tiles : Tiles offset cs lexemes) {lexeme : Lexeme}
    (member : lexeme ∈ lexemes) : ∃ front back, cs = front ++ (lexeme.text ++ back) ∧
      lexeme.span.start = offset + byteSize front ∧
      lexeme.span.stop = lexeme.span.start + byteSize lexeme.text ∧ lexeme.IsFirst back := by
  induction tiles with
  | blank => simp at member
  | @lexeme offset back more gap first blank start stop isFirst rest ih =>
    cases member with
    | head => exact ⟨gap, back, rfl, start, stop, isFirst⟩
    | tail _ member =>
      obtain ⟨front, back', same, start', stop', isFirst'⟩ := ih member
      refine ⟨gap ++ first.text ++ front, back', by simp [same], ?_, stop', isFirst'⟩
      simp [start', stop, start, Nat.add_assoc]

theorem start_le (tiles : Tiles offset cs lexemes) {lexeme : Lexeme} (member : lexeme ∈ lexemes) :
    offset ≤ lexeme.span.start := by
  obtain ⟨front, back, -, start, -⟩ := tiles.exists_place member
  omega

theorem pairwise (tiles : Tiles offset cs lexemes) :
    (lexemes.map (·.span)).Pairwise fun earlier later => earlier.stop ≤ later.start := by
  induction tiles with
  | blank => simp
  | lexeme gap first blank start stop isFirst rest ih =>
    simp only [List.map_cons, List.pairwise_cons, List.mem_map]
    constructor
    · rintro _ ⟨lexeme, member, rfl⟩
      exact rest.start_le member
    · exact ih

theorem mem_or_behind {x y front back : List Char} {c : Char} (same : x ++ y = front ++ c :: back) :
    (∃ more, x = front ++ c :: more) ∨ ∃ inner, front = x ++ inner ∧ y = inner ++ c :: back := by
  induction x generalizing front with
  | nil => exact .inr ⟨front, rfl, same⟩
  | cons d x ih =>
    cases front with
    | nil => simp_all
    | cons e front =>
      simp only [List.cons_append, List.cons.injEq] at same ⊢
      obtain ⟨rfl, same⟩ := same
      simpa using ih same

/-- A character is blank, or a lexeme holds it. -/
theorem covered (tiles : Tiles offset cs lexemes) {front back : List Char} {c : Char}
    (same : cs = front ++ c :: back) : isBlank c ∨ ∃ lexeme ∈ lexemes,
      lexeme.span.start ≤ offset + byteSize front ∧
        offset + byteSize (front ++ [c]) ≤ lexeme.span.stop := by
  induction tiles generalizing front with
  | blank blank => exact .inl (blank c (by simp [same]))
  | lexeme gap first blank start stop isFirst rest ih =>
    rcases mem_or_behind same with ⟨more, rfl⟩ | ⟨visible, rfl, behindGap⟩
    · exact .inl (blank c (by simp))
    rcases mem_or_behind behindGap with ⟨more, text⟩ | ⟨inner, rfl, behind⟩
    · refine .inr ⟨first, List.mem_cons_self, ?_, ?_⟩
      · simp only [byteSize_append]
        omega
      · rw [text] at stop
        simp only [byteSize_append, byteSize] at stop ⊢
        omega
    · rcases ih behind with blank | ⟨lexeme, member, bounds⟩
      · exact .inl blank
      · refine .inr ⟨lexeme, List.mem_cons_of_mem _ member, ?_⟩
        simp only [byteSize_append] at bounds ⊢
        omega

end Tiles

end Lexeme

end IncrementalFrontend
