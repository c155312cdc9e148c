import Mathlib.Data.List.Induction
import IncrementalFrontend.Proofs.Parser.Expressions
import IncrementalFrontend.Proofs.Parser.Nesting
import IncrementalFrontend.Proofs.Token.Walks

/-!
How a cursor delivers comments. Whatever is asked of it, a cursor goes on through its tokens and not
beyond the end of the file, and the comments that it has come to were taken, were discarded, or
wait.
-/
namespace IncrementalFrontend

namespace Cursor

inductive Event where
  | advance
  | eat (kind : TokenKind)
  | expect (kind : TokenKind)
  | expectIdentifier
  | takeComments
  | discardComments

inductive Reply where
  | token (token : Token)
  | eaten (isEaten : Bool)
  | identifier (name : Name) (span : Span)
  | comments (comments : List Comment)
  | done
  | failed (error : ParseError)

def Reply.isFailure : Reply → Bool
  | eaten isEaten => !isEaten
  | failed _ => true
  | _ => false

def respond (cursor : Cursor) : Event → Reply × Cursor
  | .advance => (.token cursor.current, cursor.advance)
  | .eat kind => (.eaten (cursor.eat kind).1, (cursor.eat kind).2)
  | .expect kind =>
    match cursor.expect kind with
    | .ok (token, further) => (.token token, further)
    | .error error => (.failed error, cursor)
  | .expectIdentifier =>
    match cursor.expectIdentifier with
    | .ok ((name, span), further) => (.identifier name span, further)
    | .error error => (.failed error, cursor)
  | .takeComments => (.comments cursor.waiting, cursor.clearComments)
  | .discardComments => (.done, cursor.clearComments)

inductive Release where
  | taken (comments : List Comment)
  | discarded (comments : List Comment)

def Release.comments : Release → List Comment
  | taken comments | discarded comments => comments

def release (cursor : Cursor) : Event → List Release
  | .takeComments =>
    match (cursor.respond .takeComments).1 with
    | .comments comments => [.taken comments]
    | _ => []
  | .discardComments => [.discarded cursor.waiting]
  | _ => []

/-- A cursor, and what was released so far, in the order of time. -/
structure Journey where
  cursor : Cursor
  released : List Release

namespace Journey

def step (journey : Journey) (event : Event) : Journey :=
  ⟨(journey.cursor.respond event).2, journey.released ++ journey.cursor.release event⟩

def run (tokens : List TokenEntry) (events : List Event) : Journey :=
  events.foldl step ⟨.ofTokens tokens, []⟩

end Journey

variable {cursor : Cursor} {event : Event}

theorem respond_eat (cursor : Cursor) (kind : TokenKind) : cursor.respond (.eat kind) =
    if cursor.isAt kind then (.eaten true, cursor.advance) else (.eaten false, cursor) := by
  rw [respond, eat]
  cases cursor.isAt kind <;> rfl

theorem respond_expect (cursor : Cursor) (kind : TokenKind) : cursor.respond (.expect kind) =
    if cursor.isAt kind then (.token cursor.current, cursor.advance)
    else (.failed (.unexpected kind.description cursor.current), cursor) := by
  rw [respond, expect]
  cases cursor.isAt kind <;> rfl

theorem respond_expectIdentifier (cursor : Cursor) : cursor.respond .expectIdentifier =
    match cursor.kind with
    | .identifier name => (.identifier name cursor.current.span, cursor.advance)
    | _ => (.failed (.noIdentifier cursor.current), cursor) := by
  rw [respond, expectIdentifier]
  cases cursor.kind <;> rfl

/-- An event consumes a token or releases all waiting comments, or else nothing happens. -/
theorem respond_cases (cursor : Cursor) (event : Event) :
    ((cursor.respond event).2 = cursor ∨ (cursor.respond event).2 = cursor.advance) ∧
        cursor.release event = [] ∨
      (cursor.respond event).2 = cursor.clearComments ∧
        (cursor.release event).flatMap Release.comments = cursor.waiting := by
  cases event with
  | advance => exact .inl ⟨.inr rfl, rfl⟩
  | eat kind =>
    refine .inl ⟨?_, rfl⟩
    rw [respond_eat]
    split
    · exact .inr rfl
    · exact .inl rfl
  | expect kind =>
    refine .inl ⟨?_, rfl⟩
    rw [respond_expect]
    split
    · exact .inr rfl
    · exact .inl rfl
  | expectIdentifier =>
    refine .inl ⟨?_, rfl⟩
    rw [respond_expectIdentifier]
    split
    · exact .inr rfl
    · exact .inl rfl
  | takeComments | discardComments => exact .inr ⟨rfl, List.append_nil _⟩

/-- A failed event leaves the cursor as it was. -/
theorem respond_of_isFailure (failed : (cursor.respond event).1.isFailure) :
    (cursor.respond event).2 = cursor := by
  cases event with
  | eat kind =>
    rw [respond_eat] at failed ⊢
    split at failed
    · cases failed
    · rw [if_neg ‹_›]
  | expect kind =>
    rw [respond_expect] at failed ⊢
    split at failed
    · cases failed
    · rw [if_neg ‹_›]
  | expectIdentifier =>
    rw [respond_expectIdentifier] at failed ⊢
    split at failed
    · cases failed
    · rfl
  | advance | takeComments | discardComments => cases failed

/-- What a cursor consumes was in front of it, and is not the end of the file. -/
theorem consumed_advance (cursor : Cursor) : cursor.advance.consumed = cursor.consumed ∨
    ∃ entry, entry.token.kind ≠ .endOfFile ∧
      cursor.advance.consumed = entry :: cursor.consumed := by
  cases inside : cursor.isAtEnd with
  | true => exact .inl (congrArg consumed (advance_of_isAtEnd inside))
  | false =>
    cases rest : cursor.rest with
    | nil => exact .inl (by simp [advance, inside, rest])
    | cons entry more =>
      refine .inr ⟨entry, ?_, by simp [advance, inside, rest]⟩
      simpa [isAtEnd, isAt, kind, current, rest] using inside

namespace Journey

/-- Where a journey over tokens has come, and what became of the comments on the way. -/
structure Delivers (tokens : List TokenEntry) (journey : Journey) : Prop where
  entries : journey.cursor.entries = tokens
  consumed : ∀ entry ∈ journey.cursor.consumed, entry.token.kind ≠ .endOfFile
  comments : journey.released.flatMap Release.comments ++ journey.cursor.waiting =
    (tokens.take (journey.cursor.position + 1)).flatMap (·.comments)

variable {tokens : List TokenEntry} {journey : Journey}

theorem delivers_ofTokens (tokens : List TokenEntry) : Delivers tokens ⟨.ofTokens tokens, []⟩ where
  entries := entries_ofTokens tokens
  consumed _ member := nomatch member
  comments := by cases tokens <;> simp [ofTokens, position]

theorem Delivers.advance (delivers : journey.Delivers tokens) :
    (⟨journey.cursor.advance, journey.released⟩ : Journey).Delivers tokens where
  entries := (entries_advance _).trans delivers.entries
  consumed := by
    obtain same | ⟨entry, inside, same⟩ := journey.cursor.consumed_advance
    · rw [same]
      exact delivers.consumed
    · rw [same]
      exact List.forall_mem_cons.mpr ⟨inside, delivers.consumed⟩
  comments := by
    obtain same | ⟨entry, rest, -, same⟩ := journey.cursor.advance_cases
    · rw [same]
      exact delivers.comments
    · have moved : journey.cursor.advance.position = journey.cursor.position + 1 := by
        rw [same]
        rfl
      have reached : tokens[journey.cursor.position + 1]? = rest.head? := by
        rw [← moved, ← delivers.entries, ← entries_advance, getElem?_position, same]
      have waiting : journey.cursor.advance.waiting =
          journey.cursor.waiting ++ (rest.head?.map (·.comments)).getD [] := by
        rw [same]
      have taken : tokens.take (journey.cursor.position + 1 + 1) =
          tokens.take (journey.cursor.position + 1) ++ rest.head?.toList := by
        rw [List.take_add_one, reached]
      rw [waiting, moved, taken, ← List.append_assoc, delivers.comments, List.flatMap_append]
      cases rest.head? <;> simp

theorem Delivers.release (delivers : journey.Delivers tokens) {released : List Release}
    (all : released.flatMap Release.comments = journey.cursor.waiting) :
    (⟨journey.cursor.clearComments, journey.released ++ released⟩ : Journey).Delivers tokens where
  entries := delivers.entries
  consumed := delivers.consumed
  comments := by
    rw [List.flatMap_append, all]
    exact (List.append_nil _).trans delivers.comments

theorem Delivers.step (delivers : journey.Delivers tokens) (event : Event) :
    (journey.step event).Delivers tokens := by
  unfold Journey.step
  obtain ⟨stays | advances, none⟩ | ⟨clears, all⟩ := journey.cursor.respond_cases event
  · rw [stays, none, List.append_nil]
    exact delivers
  · rw [advances, none, List.append_nil]
    exact delivers.advance
  · rw [clears]
    exact delivers.release all

theorem delivers_run (tokens : List TokenEntry) (events : List Event) :
    (run tokens events).Delivers tokens := by
  induction events using List.reverseRecOn with
  | nil => exact delivers_ofTokens tokens
  | append_singleton events event ih =>
    rw [run, List.foldl_append]
    exact ih.step event

theorem position_le_step (journey : Journey) (event : Event) :
    journey.cursor.position ≤ (journey.step event).cursor.position := by
  unfold step
  obtain ⟨stays | advances, -⟩ | ⟨clears, -⟩ := journey.cursor.respond_cases event
  · exact Nat.le_of_eq (congrArg position stays.symm)
  · rw [advances]
    exact (Walks.advance _).position_le
  · exact Nat.le_of_eq (congrArg position clears.symm : journey.cursor.clearComments.position = _)

theorem position_le_foldl (journey : Journey) (events : List Event) :
    journey.cursor.position ≤ (events.foldl step journey).cursor.position := by
  induction events generalizing journey with
  | nil => exact Nat.le_refl _
  | cons event rest ih => exact Nat.le_trans (journey.position_le_step event) (ih _)

theorem step_of_isFailure {event : Event}
    (failed : (journey.cursor.respond event).1.isFailure) : journey.step event = journey := by
  have none : journey.cursor.release event = [] := by
    cases event with
    | takeComments | discardComments => cases failed
    | advance | eat | expect | expectIdentifier => rfl
  unfold step
  rw [respond_of_isFailure failed, none, List.append_nil]

theorem Delivers.position_le (delivers : journey.Delivers tokens) :
    journey.cursor.position ≤ tokens.length := by
  rw [← delivers.entries, Cursor.entries, List.length_append, List.length_reverse]
  exact Nat.le_add_right _ _

theorem Delivers.kind_ne (delivers : journey.Delivers tokens) {index : Nat}
    (passed : index < journey.cursor.position) : (tokenAt tokens index).kind ≠ .endOfFile := by
  have inside : index < journey.cursor.consumed.reverse.length :=
    List.length_reverse.symm ▸ passed
  have there : tokens[index]? = some journey.cursor.consumed.reverse[index] := by
    rw [← delivers.entries, Cursor.entries, List.getElem?_append_left inside,
      List.getElem?_eq_getElem inside]
  rw [tokenAt, there]
  exact delivers.consumed _ (List.mem_reverse.mp (List.getElem_mem inside))

end Journey

end Cursor

namespace Parser

def Asks {α : Type} (parser : Parser α) (event : Cursor.Event) : Prop :=
  ∀ source before, ∃ outcome after, parser source before = some (outcome, after) ∧
    after.cursor = (before.cursor.respond event).2 ∧
    ∀ error, outcome = .error error ↔ (before.cursor.respond event).1 = .failed error

theorem asks_advance : advance.Asks .advance :=
  fun _ _ => ⟨_, _, rfl, rfl, fun _ => ⟨nofun, nofun⟩⟩

theorem asks_eat (kind : TokenKind) : (eat kind).Asks (.eat kind) :=
  fun _ _ => ⟨_, _, eat_apply kind, rfl, fun _ => ⟨nofun, nofun⟩⟩

theorem asks_expect (kind : TokenKind) : (expect kind).Asks (.expect kind) := by
  intro source before
  rw [expect_apply, Cursor.expect, Cursor.respond_expect]
  cases before.cursor.isAt kind with
  | true => exact ⟨_, _, rfl, rfl, fun _ => by simp⟩
  | false => exact ⟨_, _, rfl, rfl, fun _ => by simp⟩

theorem asks_expectIdentifier : expectIdentifier.Asks .expectIdentifier := by
  intro source before
  rw [expectIdentifier_apply, Cursor.respond_expectIdentifier]
  cases before.cursor.kind with
  | identifier name => exact ⟨_, _, rfl, rfl, fun _ => ⟨nofun, nofun⟩⟩
  | _ => exact ⟨_, _, rfl, rfl, fun _ => by simp⟩

theorem asks_flushComments : flushComments.Asks .takeComments :=
  fun source before => ⟨_, _, flushComments_apply source before, rfl, fun _ => ⟨nofun, nofun⟩⟩

theorem asks_discardComments : discardComments.Asks .discardComments :=
  fun _ _ => ⟨_, _, rfl, rfl, fun _ => ⟨nofun, nofun⟩⟩

end Parser

namespace Cursor.Journey

/-- Whatever is asked of a cursor over any tokens, it never goes back, beyond the last token or past
the end of the file, and an event that fails changes nothing. The comments that were taken or
discarded, in the order of time, and those that wait are the comments of the tokens up to the
current one. A parser asks the same of its cursor. -/
theorem comments_are_delivered_once (tokens : List TokenEntry) (events : List Event) :
    let journey := run tokens events
    journey.cursor.entries = tokens ∧
    (∀ more : List Event,
      journey.cursor.position ≤ (more.foldl step journey).cursor.position) ∧
    journey.cursor.position ≤ tokens.length ∧
    (∀ index < journey.cursor.position, (tokenAt tokens index).kind ≠ .endOfFile) ∧
    (∀ event, (journey.cursor.respond event).1.isFailure → journey.step event = journey) ∧
    journey.released.flatMap Release.comments ++ journey.cursor.waiting =
      (tokens.take (journey.cursor.position + 1)).flatMap (·.comments) ∧
    Parser.advance.Asks .advance ∧ (∀ kind, (Parser.eat kind).Asks (.eat kind)) ∧
    (∀ kind, (Parser.expect kind).Asks (.expect kind)) ∧
    Parser.expectIdentifier.Asks .expectIdentifier ∧
    Parser.flushComments.Asks .takeComments ∧ Parser.discardComments.Asks .discardComments := by
  intro journey
  have delivers : journey.Delivers tokens := delivers_run tokens events
  exact ⟨delivers.entries, journey.position_le_foldl, delivers.position_le,
    fun _ passed => delivers.kind_ne passed, fun _ failed => step_of_isFailure failed,
    delivers.comments, Parser.asks_advance, Parser.asks_eat, Parser.asks_expect,
    Parser.asks_expectIdentifier, Parser.asks_flushComments, Parser.asks_discardComments⟩

end Cursor.Journey

end IncrementalFrontend
