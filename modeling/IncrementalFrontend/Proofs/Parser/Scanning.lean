import IncrementalFrontend.Proofs.Parser.Expressions

/-!
Expressions are scanned token by token. Whether it succeeds or fails, a parser of expressions only
advances the cursor, and it does so over tokens that occur in expressions; so it never passes a
keyword, a brace, a semicolon or an invalid token.
-/
namespace IncrementalFrontend

def TokenKind.isExpressive : TokenKind → Bool
  | .identifier _ | .integer _ | .string _ => true
  | .symbol .semicolon | .symbol .braceOpen | .symbol .braceClose => false
  | .symbol _ => true
  | _ => false

namespace Cursor

inductive Scans : Cursor → Cursor → Prop where
  | refl (cursor : Cursor) : Scans cursor cursor
  | step {cursor last : Cursor} (expressive : cursor.kind.isExpressive)
      (further : Scans cursor.advance last) : Scans cursor last

theorem Scans.trans {cursor mid last : Cursor} (first : cursor.Scans mid) (second : mid.Scans last) :
    cursor.Scans last := by
  induction first with
  | refl => exact second
  | step expressive _ ih => exact .step expressive (ih second)

theorem Scans.advance {cursor : Cursor} (expressive : cursor.kind.isExpressive) :
    cursor.Scans cursor.advance :=
  .step expressive (.refl _)

theorem rest_advance {cursor : Cursor} {entry : TokenEntry} {rest : List TokenEntry}
    (same : cursor.rest = entry :: rest) (inside : entry.token.kind ≠ .endOfFile) :
    cursor.advance.rest = rest := by
  have notEnd : cursor.isAtEnd = false :=
    isAtEnd_eq_false (by rw [kind, current, same]; rfl) inside
  rw [Cursor.advance, notEnd, same]
  rfl

/-- In front of a token that no expression contains, scanning ends at the latest. -/
theorem Scans.stops {cursor last : Cursor} {junk rest : List TokenEntry} {barrier : TokenEntry}
    (scans : cursor.Scans last) (same : cursor.rest = junk ++ barrier :: rest)
    (stops : barrier.token.kind.isExpressive = false) :
    ∃ passed left, junk = passed ++ left ∧ last.rest = left ++ barrier :: rest ∧
      last = Cursor.advance^[passed.length] cursor := by
  induction scans generalizing junk with
  | refl cursor => exact ⟨[], junk, rfl, same, rfl⟩
  | @step cursor last expressive _ ih =>
    cases junk with
    | nil =>
      have here : cursor.kind = barrier.token.kind := by
        rw [kind, current, same]
        rfl
      rw [here, stops] at expressive
      cases expressive
    | cons entry junk =>
      have here : cursor.kind = entry.token.kind := by
        rw [kind, current, same]
        rfl
      have inside : entry.token.kind ≠ .endOfFile := by
        intro ended
        rw [here, ended] at expressive
        cases expressive
      obtain ⟨passed, left, rfl, remaining, reached⟩ := ih (rest_advance same inside)
      exact ⟨entry :: passed, left, rfl, remaining, reached⟩

end Cursor

namespace Parser

variable {α β σ : Type} {source : Source} {before mid after : State}

def ScansAt (parser : Parser α) (source : Source) (before : State) : Prop :=
  ∀ outcome after, parser source before = some (outcome, after) →
    before.cursor.Scans after.cursor ∧ before.Keeps after

def Scans (parser : Parser α) : Prop :=
  ∀ source before, ScansAt parser source before

namespace ScansAt

variable {parser : Parser α} {next : α → Parser β}

theorem of_eq {result : Except ParseError α} (ran : parser source before = some (result, after))
    (scans : before.cursor.Scans after.cursor) (keeps : before.Keeps after) :
    ScansAt parser source before := by
  intro outcome last ran'
  cases ran.symm.trans ran'
  exact ⟨scans, keeps⟩

theorem congr {other : Parser α} (same : parser source before = other source before)
    (scans : ScansAt other source before) : ScansAt parser source before :=
  fun outcome after ran => scans outcome after (same ▸ ran)

theorem pure (result : α) : ScansAt (pure result) source before :=
  .of_eq rfl (.refl _) (.refl _)

theorem bind (first : ScansAt parser source before)
    (second : ∀ result mid, parser source before = some (.ok result, mid) →
      ScansAt (next result) source mid) : ScansAt (parser >>= next) source before := by
  intro outcome after ran
  obtain ⟨_, failed, -⟩ | ⟨result, mid, start, rest⟩ := ran_of_bind ran
  · exact first _ _ failed
  · obtain ⟨scans, keeps⟩ := first _ _ start
    obtain ⟨scans', keeps'⟩ := second result mid start outcome after rest
    exact ⟨scans.trans scans', keeps.trans keeps'⟩

theorem andThen (first : ScansAt parser source before) (second : ∀ result, Scans (next result)) :
    ScansAt (parser >>= next) source before :=
  first.bind fun result mid _ => second result source mid

/-- The current token is consumed. -/
theorem advance {next : Token → Parser β} (expressive : before.cursor.kind.isExpressive)
    (second : Scans (next before.cursor.current)) :
    ScansAt (Parser.advance >>= next) source before := by
  have advances : Parser.advance source before =
    some (.ok before.cursor.current, { before with cursor := before.cursor.advance }) := rfl
  refine bind (.of_eq advances (.advance expressive) ⟨rfl, rfl, rfl, rfl⟩) fun result mid ran => ?_
  cases advances.symm.trans ran
  exact second source _

end ScansAt

namespace Scans

variable {parser : Parser α} {next : α → Parser β} {symbol : Symbol}

theorem pure (result : α) : Scans (pure result) :=
  fun _ _ => .pure result

theorem bind (first : Scans parser) (second : ∀ result, Scans (next result)) :
    Scans (parser >>= next) :=
  fun source before => (first source before).andThen second

/-- The parser looks at the current token and leaves it. -/
theorem peekKind {next : TokenKind → Parser β}
    (second : ∀ source before, ScansAt (next before.cursor.kind) source before) :
    Scans (kind >>= next) :=
  fun source before => second source before

theorem store (node : Node) (start : Span) : Scans (store node start) :=
  fun _ _ => .of_eq rfl (.refl _) ⟨rfl, rfl, rfl, rfl⟩

theorem currentSpan : Scans currentSpan :=
  fun _ _ => .of_eq rfl (.refl _) (.refl _)

theorem eatSymbol (expressive : (TokenKind.symbol symbol).isExpressive) : Scans (eatSymbol symbol) := by
  intro source before
  by_cases here : before.cursor.kind = .symbol symbol
  · exact .of_eq (eat_ok here) (.advance (here ▸ expressive)) ⟨rfl, rfl, rfl, rfl⟩
  · exact .of_eq (eat_absent here) (.refl _) (.refl _)

theorem expectSymbol (expressive : (TokenKind.symbol symbol).isExpressive) :
    Scans (expectSymbol symbol) := by
  intro source before
  by_cases here : before.cursor.kind = .symbol symbol
  · exact .of_eq (expect_ok here) (.advance (here ▸ expressive)) ⟨rfl, rfl, rfl, rfl⟩
  · obtain ⟨error, ran, -⟩ := @expect_error source before _ here
    exact .of_eq ran (.refl _) (.refl _)

theorem expectIdentifier : Scans expectIdentifier := by
  intro source before
  have ran := @expectIdentifier_apply source before
  split at ran
  · rename_i name here
    exact .of_eq ran (.advance (here ▸ rfl)) ⟨rfl, rfl, rfl, rfl⟩
  · exact .of_eq ran (.refl _) (.refl _)

theorem loop {start : σ} {round : σ → Parser (Round σ α)} (scans : ∀ state, Scans (round state)) :
    Scans (loop start round) := by
  have within (count : Nat) (state : σ) : Scans (rounds round count state) := by
    induction count generalizing state with
    | zero =>
      intro source before outcome after ran
      cases ran
    | succ count ih =>
      refine (scans state).bind fun
        | .again state => ih state
        | .done result => .pure result
  exact fun source => within source.budget start source

theorem listUntil {close : Symbol} (expressive : (TokenKind.symbol close).isExpressive)
    {item : Parser α} (scans : Scans item) : Scans (listUntil close item) := by
  refine .loop fun items => (eatSymbol expressive).bind fun isClosed => ?_
  split
  · exact .pure _
  · refine scans.bind fun last => (eatSymbol rfl).bind fun isFollowed => ?_
    split
    · exact .pure _
    · exact (expectSymbol expressive).bind fun _ => .pure _

theorem foldlM {step : β → α → Parser β} (scans : ∀ state item, Scans (step state item))
    (items : List α) (start : β) : Scans (items.foldlM step start) := by
  induction items generalizing start with
  | nil => exact .pure start
  | cons item rest ih =>
    rw [List.foldlM_cons]
    exact (scans start item).bind ih

end Scans

theorem isExpressive_of_operatorAmong {kind : TokenKind} {operators : List Operator}
    {operator : Operator} (found : kind.operatorAmong? operators = some operator) :
    kind.isExpressive := by
  unfold TokenKind.operatorAmong? at found
  have same := List.find?_some found
  rw [eq_of_beq same]
  cases operator <;> rfl

theorem scans_signs : Scans signs := by
  refine .loop fun signs => .peekKind fun source before => ?_
  split
  · rename_i operator found
    exact .advance (isExpressive_of_operatorAmong found) (.pure _)
  · exact .pure _

section

variable {expression operand : Parser NodeId} (scans : Scans expression)
include scans

theorem scans_primary : Scans (primary expression) := by
  intro source before
  have looks : current source before = some (.ok before.cursor.current, before) := rfl
  have leaf (node : Node) (expressive : before.cursor.kind.isExpressive) :
      ScansAt (do
        let _ ← advance
        let location ← locate before.cursor.current.span
        build (·.store node location)) source before := by
    refine .advance expressive fun source mid => ?_
    exact .of_eq rfl (.refl _) ⟨rfl, rfl, rfl, rfl⟩
  rcases startsPrimary_cases before.cursor.kind with
    ⟨name, here⟩ | ⟨value, here⟩ | ⟨content, here⟩ | here | apart
  · refine .congr (bind_of_ok looks) ?_
    have shape : before.cursor.current.kind = .identifier name := here
    simp only [shape]
    exact leaf _ (by rw [here]; rfl)
  · refine .congr (bind_of_ok looks) ?_
    have shape : before.cursor.current.kind = .integer value := here
    simp only [shape]
    exact leaf _ (by rw [here]; rfl)
  · refine .congr (bind_of_ok looks) ?_
    have shape : before.cursor.current.kind = .string content := here
    simp only [shape]
    exact leaf _ (by rw [here]; rfl)
  · refine .congr (bind_of_ok looks) ?_
    have shape : before.cursor.current.kind = .symbol .parenOpen := here
    simp only [shape]
    refine .advance (by rw [here]; rfl) ?_
    exact scans.bind fun _ => (Scans.expectSymbol rfl).bind fun _ => .pure _
  · exact .of_eq (primary_error expression apart) (.refl _) ⟨rfl, rfl, rfl, rfl⟩

theorem scans_suffixed : Scans (suffixed expression) := by
  refine .bind .currentSpan fun start => (scans_primary scans).bind fun head => .loop fun node => ?_
  refine (Scans.eatSymbol rfl).bind fun isCall => ?_
  split
  · exact (Scans.listUntil rfl scans).bind fun _ => (Scans.store _ start).bind fun _ => .pure _
  · refine (Scans.eatSymbol rfl).bind fun isField => ?_
    split
    · exact Scans.expectIdentifier.bind fun _ => (Scans.store _ start).bind fun _ => .pure _
    · exact .pure _

theorem scans_signed : Scans (signed expression) := by
  rw [signed_eq]
  refine scans_signs.bind fun signs => (scans_suffixed scans).bind fun operand => ?_
  refine .foldlM (fun node sign => ?_) signs operand
  exact .store (.operation sign.1 [node]) sign.2

omit scans in
theorem scans_leftAssociative (operators : List Operator) (scans : Scans operand) :
    Scans (leftAssociative operators operand) := by
  refine .bind .currentSpan fun start => scans.bind fun first => .loop fun left => ?_
  have again (operator : Operator) : Scans (do
      let right ← operand
      return Round.again (← storeOperation operator [left, right] start) : Parser (Round NodeId NodeId)) :=
    scans.bind fun right => (Scans.store (.operation operator [left, right]) start).bind fun _ => .pure _
  refine .peekKind fun source before => ?_
  split
  · exact .pure _
  · rename_i operator found
    exact .advance (isExpressive_of_operatorAmong found) (again operator)

theorem scans_binary : Scans (binary expression) := by
  have level (levels : List (List Operator)) :
      Scans (levels.foldr leftAssociative (signed expression)) := by
    induction levels with
    | nil => exact scans_signed scans
    | cons operators tighter ih => exact scans_leftAssociative operators ih
  exact level Operator.binaryLevels

theorem scans_assignment : Scans (assignment expression) := by
  refine .bind .currentSpan fun start => (scans_binary scans).bind fun target => ?_
  refine (Scans.eatSymbol rfl).bind fun isAssigned => ?_
  split
  · exact scans.bind fun value => .store (.operation .assign [target, value]) start
  · exact .pure _

end

theorem scans_expression : Scans expression := by
  have within (depth : Nat) : Scans (unroll assignment depth) := by
    induction depth with
    | zero =>
      intro source before outcome after ran
      have absurd : none = some (outcome, after) := ran
      cases absurd
    | succ depth ih => exact fun source => scans_assignment ih source
  exact fun source => within source.budget source

end Parser

end IncrementalFrontend
