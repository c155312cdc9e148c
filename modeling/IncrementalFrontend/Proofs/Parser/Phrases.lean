import IncrementalFrontend.Proofs.Parser.Grammar
import IncrementalFrontend.Proofs.Parser.Words

/-!
What parsers do with languages. A parser parses a language if a run without complaint has read a
word of the language, and if it reads each such word whenever no continuation of it follows. The
rules are those of the control structures, so a production is followed line by line.
-/
namespace IncrementalFrontend

open Computability

namespace Parser

variable {α β σ : Type} {source : Source} {before mid after : State}
  {word more : List TokenKind}

structure State.Reads (before : State) (word : List TokenKind) (after : State) : Prop where
  kinds : before.cursor.kinds = word ++ after.cursor.kinds
  inside : .endOfFile ∉ word
  position : after.cursor.position = before.cursor.position + word.length

structure State.Keeps (before after : State) : Prop where
  scopes : after.builder.scopes = before.builder.scopes
  topLevel : after.builder.topLevel = before.builder.topLevel
  diagnostics : after.builder.diagnostics = before.builder.diagnostics
  unit : after.builder.unit = before.builder.unit

def State.IsSilent (before after : State) : Prop :=
  after.builder.diagnostics = before.builder.diagnostics

def State.Reports (before after : State) : Prop :=
  before.builder.diagnostics.toList <+: after.builder.diagnostics.toList

namespace State

theorem Reads.nil (same : after.cursor.kinds = before.cursor.kinds)
    (position : after.cursor.position = before.cursor.position) : before.Reads [] after :=
  ⟨same.symm, List.not_mem_nil, position⟩

theorem Reads.trans (first : before.Reads word mid) (second : mid.Reads more after) :
    before.Reads (word ++ more) after where
  kinds := by rw [first.kinds, second.kinds, List.append_assoc]
  inside both := (List.mem_append.mp both).elim first.inside second.inside
  position := by rw [second.position, first.position, List.length_append, Nat.add_assoc]

theorem Reads.of_cursor {state : State} (reads : before.Reads word after)
    (same : before.cursor = state.cursor) : state.Reads word after := by
  obtain ⟨cursor, builder⟩ := state
  obtain rfl := same
  exact ⟨reads.kinds, reads.inside, reads.position⟩

theorem Reads.kind_eq (reads : before.Reads [] after) : after.cursor.kind = before.cursor.kind := by
  rw [Cursor.kind_eq_first before.cursor, reads.kinds, Cursor.kind_eq_first after.cursor]
  rfl

theorem Reads.length (reads : before.Reads word after) :
    before.cursor.kinds.length = word.length + after.cursor.kinds.length := by
  rw [reads.kinds, List.length_append]

theorem Reads.nil_of_isAtEnd (reads : before.Reads word after)
    (ended : before.cursor.isAtEnd = true) : word = [] := by
  cases word with
  | nil => rfl
  | cons kind rest =>
    have first := (Cursor.kind_eq_first before.cursor).symm.trans (Cursor.isAtEnd_iff.mp ended)
    rw [reads.kinds] at first
    exact absurd (first ▸ List.mem_cons_self) reads.inside

theorem Keeps.refl (state : State) : state.Keeps state :=
  ⟨rfl, rfl, rfl, rfl⟩

theorem Keeps.trans (first : before.Keeps mid) (second : mid.Keeps after) : before.Keeps after :=
  ⟨second.scopes.trans first.scopes, second.topLevel.trans first.topLevel,
    second.diagnostics.trans first.diagnostics, second.unit.trans first.unit⟩

theorem Reports.silent (first : before.Reports mid) (second : mid.Reports after)
    (silent : before.IsSilent after) : before.IsSilent mid ∧ mid.IsSilent after := by
  have second : mid.builder.diagnostics.toList <+: before.builder.diagnostics.toList :=
    silent ▸ second
  have same : mid.builder.diagnostics = before.builder.diagnostics :=
    Array.toList_inj.mp (first.eq_of_length_le second.length_le).symm
  exact ⟨same, silent.trans same.symm⟩

end State

structure Effect where
  done : State → List TokenKind → State → Prop
  failed : State → List TokenKind → State → Prop
  quiet {before after : State} {word : List TokenKind} : before.Reads word after →
    (∀ kind ∈ word, kind.isPlain) → before.Keeps after → done before word after ∧ failed before word after
  trans {before mid after : State} {word more : List TokenKind} : before.Reads word mid →
    mid.Reads more after → done before word mid → done mid more after →
    done before (word ++ more) after
  failed_trans {before mid after : State} {word more : List TokenKind} : before.Reads word mid →
    mid.Reads more after → done before word mid → failed mid more after →
    failed before (word ++ more) after
  reports {before after : State} {word : List TokenKind} : done before word after →
    before.Reports after

/-- A run ended well: without complaint, it has read a word of the language; or it failed, and tells
the token that stood in the way. -/
def Ends (effect : Effect) (before : State) (word : List TokenKind)
    (language : Language TokenKind) : Except ParseError α → State → Prop
  | .ok _, after => effect.done before word after ∧ (word = [] → [] ∈ language) ∧
      (before.IsSilent after → .invalid ∉ before.cursor.kinds → word ∈ language)
  | .error error, after => effect.failed before word after ∧
      error.found? = some after.cursor.kind

def among (kinds : List TokenKind) : Set TokenKind :=
  {kind | kind ∈ kinds}

@[simp] theorem mem_among {kind : TokenKind} {kinds : List TokenKind} :
    kind ∈ among kinds ↔ kind ∈ kinds :=
  Iff.rfl

theorem among_union (some more : List TokenKind) :
    among some ∪ among more = among (some ++ more) := by
  ext kind
  simp

instance (kind : TokenKind) (kinds : List TokenKind) : Decidable (kind ∈ among kinds) :=
  inferInstanceAs (Decidable (kind ∈ kinds))

instance (some all : List TokenKind) : Decidable (among some ⊆ among all) :=
  inferInstanceAs (Decidable (some ⊆ all))

instance (kind : TokenKind) (kinds : List TokenKind) : Decidable ({kind} ⊆ among kinds) :=
  decidable_of_iff (kind ∈ among kinds) Set.singleton_subset_iff.symm

instance (kind : TokenKind) (kinds : List TokenKind) : Decidable (among kinds ⊆ {kind}ᶜ) :=
  decidable_of_iff (kind ∉ among kinds) Set.subset_compl_singleton_iff.symm

structure Ran (effect : Effect) (before : State) (language : Language TokenKind)
    (avoid : Set TokenKind) (outcome : Except ParseError α) (after : State)
    (word : List TokenKind) : Prop where
  reads : before.Reads word after
  ends : Ends effect before word language outcome after
  complete : ∀ sentence rest, sentence ∈ language → before.cursor.kinds = sentence ++ rest →
    .first rest ∉ avoid → (∃ result, outcome = .ok result) ∧ word = sentence ∧ before.IsSilent after

/-- From a state on, the parser parses the language, if none of `avoid` follows: it does so with
`effect`, and it ends if less than `room` tokens are left. -/
structure Parses (effect : Effect) (room : Nat) (parser : Parser α) (source : Source)
    (before : State) (language : Language TokenKind) (avoid : Set TokenKind) : Prop where
  ends : before.cursor.kinds.length < room → (parser source before).isSome
  ran : ∀ outcome after, parser source before = some (outcome, after) →
    ∃ word, Ran effect before language avoid outcome after word

def Precedes (language : Language TokenKind) (avoid shun : Set TokenKind) : Prop :=
  ∀ word rest, word ∈ language → TokenKind.first rest ∉ avoid → .first (word ++ rest) ∉ shun

namespace Precedes

variable {language other : Language TokenKind} {avoid shun middle : Set TokenKind}

theorem nothing : Precedes language avoid ∅ :=
  fun _ _ _ _ => Set.notMem_empty _

theorem one (subset : shun ⊆ avoid) : Precedes 1 avoid shun := by
  rintro _ rest rfl follows inside
  exact follows (subset inside)

theorem mul (first : Precedes language middle shun) (second : Precedes other avoid middle) :
    Precedes (language * other) avoid shun := by
  intro _ rest member follows
  obtain ⟨left, inLeft, right, inRight, rfl⟩ := Language.mem_mul.mp member
  rw [List.append_assoc]
  exact first left (right ++ rest) inLeft (second right rest inRight follows)

theorem token {kind : TokenKind} (apart : kind ∉ shun) :
    Precedes ({[kind]} * language) avoid shun := by
  intro _ rest member _
  obtain ⟨_, rfl, part, -, rfl⟩ := Language.mem_mul.mp member
  exact apart

theorem last {kind : TokenKind} (apart : kind ∉ shun) : Precedes {[kind]} avoid shun := by
  rintro _ rest rfl -
  exact apart

theorem valued {make : α → TokenKind} (apart : ∀ value, make value ∉ shun) :
    Precedes (Grammar.valued make) avoid shun := by
  rintro _ rest ⟨value, rfl⟩ -
  exact apart value

theorem anyOf {kinds : List TokenKind} (apart : ∀ kind ∈ kinds, kind ∉ shun) :
    Precedes (Grammar.anyOf kinds) avoid shun := by
  rintro _ rest ⟨kind, member, rfl⟩ -
  exact apart kind member

theorem add (first : Precedes language avoid shun) (second : Precedes other avoid shun) :
    Precedes (language + other) avoid shun :=
  fun word rest member follows => member.elim (first word rest · follows) (second word rest · follows)

end Precedes

def Opens (language : Language TokenKind) (starts : TokenKind → Bool) : Prop :=
  ∀ word ∈ language, ∃ kind rest, word = kind :: rest ∧ starts kind

namespace Opens

variable {language other : Language TokenKind} {starts : TokenKind → Bool}
  {avoid shun : Set TokenKind}

theorem token {kind : TokenKind} (start : starts kind) : Opens {[kind]} starts := by
  rintro _ rfl
  exact ⟨kind, [], rfl, start⟩

theorem valued {make : α → TokenKind} (start : ∀ value, starts (make value)) :
    Opens (Grammar.valued make) starts := by
  rintro _ ⟨value, rfl⟩
  exact ⟨make value, [], rfl, start value⟩

theorem anyOf {kinds : List TokenKind} (start : ∀ kind ∈ kinds, starts kind) :
    Opens (Grammar.anyOf kinds) starts := by
  rintro _ ⟨kind, member, rfl⟩
  exact ⟨kind, [], rfl, start kind member⟩

theorem mul (opens : Opens language starts) : Opens (language * other) starts := by
  intro _ member
  obtain ⟨left, inLeft, right, -, rfl⟩ := Language.mem_mul.mp member
  obtain ⟨kind, rest, rfl, start⟩ := opens left inLeft
  exact ⟨kind, rest ++ right, rfl, start⟩

theorem add (first : Opens language starts) (second : Opens other starts) :
    Opens (language + other) starts :=
  fun word member => member.elim (first word) (second word)

theorem mono {more : TokenKind → Bool} (opens : Opens language starts)
    (le : ∀ kind, starts kind → more kind) : Opens language more := by
  intro word member
  obtain ⟨kind, rest, same, start⟩ := opens word member
  exact ⟨kind, rest, same, le kind start⟩

/-- Something that opens may be preceded by something optional. -/
theorem maybe_mul (first : Opens language starts) (second : Opens other starts) :
    Opens ((language + 1) * other) starts := by
  rw [add_mul, one_mul]
  exact first.mul.add second

/-- Something optional, told by its first token. -/
theorem maybe_token_mul {kind : TokenKind} {kinds : List TokenKind} {part : Language TokenKind}
    (second : Opens other (· ∈ kinds)) :
    Opens (({[kind]} * part + 1) * other) (· ∈ kind :: kinds) := by
  exact .maybe_mul (.mul (.token (by simp))) (second.mono (by simp_all))

theorem nil_notMem (opens : Opens language starts) : [] ∉ language := by
  intro member
  obtain ⟨kind, rest, absurd, -⟩ := opens [] member
  cases absurd

theorem precedes (opens : Opens language starts) (apart : ∀ kind ∈ shun, starts kind = false) :
    Precedes language avoid shun := by
  intro word rest member _ inside
  obtain ⟨kind, more, rfl, start⟩ := opens word member
  exact Bool.false_ne_true ((apart kind inside).symm.trans start)

theorem precedes_among {kinds shunned : List TokenKind} (opens : Opens language (· ∈ kinds))
    (apart : ∀ kind ∈ shunned, kind ∉ kinds) : Precedes language avoid (among shunned) :=
  opens.precedes fun kind member => decide_eq_false (apart kind member)

theorem kstar_mul (first : Opens language starts) (second : Opens other starts) :
    Opens (language∗ * other) starts := by
  rw [← Language.one_add_self_mul_kstar_eq_kstar, add_comm]
  exact first.mul.maybe_mul second

theorem kstar_precedes (opens : Opens language starts) (apart : ∀ kind ∈ shun, starts kind = false)
    (subset : shun ⊆ avoid) : Precedes language∗ avoid shun := by
  rw [← Language.one_add_self_mul_kstar_eq_kstar]
  exact .add (.one subset) (opens.mul.precedes apart)

end Opens

theorem bind_of_ok {parser : Parser α} {next : α → Parser β} {result : α}
    (ran : parser source before = some (.ok result, mid)) :
    (parser >>= next) source before = next result source mid := by
  simp [bind, ReaderT.bind, ExceptT.bind, ExceptT.mk, StateT.bind, ran, ExceptT.bindCont]

theorem bind_of_error {parser : Parser α} {next : α → Parser β} {error : ParseError}
    (ran : parser source before = some (.error error, mid)) :
    (parser >>= next) source before = some (.error error, mid) := by
  simp only [bind, ReaderT.bind, ExceptT.bind, ExceptT.mk, StateT.bind, ran, Option.bind_some,
    ExceptT.bindCont]
  rfl

theorem bind_of_none {parser : Parser α} {next : α → Parser β}
    (ran : parser source before = none) : (parser >>= next) source before = none := by
  simp [bind, ReaderT.bind, ExceptT.bind, ExceptT.mk, StateT.bind, ran]

/-- A sequence ends where its first part fails, or goes on behind it. -/
theorem ran_of_bind {parser : Parser α} {next : α → Parser β} {outcome : Except ParseError β}
    (ran : (parser >>= next) source before = some (outcome, after)) :
    (∃ error, parser source before = some (.error error, after) ∧ outcome = .error error) ∨
      ∃ result mid, parser source before = some (.ok result, mid) ∧
        next result source mid = some (outcome, after) := by
  cases start : parser source before with
  | none => cases (bind_of_none start).symm.trans ran
  | some middle =>
    obtain ⟨error | result, mid⟩ := middle
    · cases (bind_of_error start).symm.trans ran
      exact .inl ⟨error, rfl, rfl⟩
    · exact .inr ⟨result, mid, rfl, (bind_of_ok start).symm.trans ran⟩

theorem ok_of_bind {parser : Parser α} {next : α → Parser β} {last : β}
    (ran : (parser >>= next) source before = some (.ok last, after)) :
    ∃ result mid, parser source before = some (.ok result, mid) ∧
      next result source mid = some (.ok last, after) := by
  obtain ⟨_, -, ⟨⟩⟩ | goesOn := ran_of_bind ran
  exact goesOn

theorem bind_eq_of_eq {first other : Parser α} (next : α → Parser β)
    (same : first source before = other source mid) :
    (first >>= next) source before = (other >>= next) source mid := by
  simp [bind, ReaderT.bind, ExceptT.bind, ExceptT.mk, StateT.bind, same]

namespace Parses

variable {effect : Effect} {room : Nat} {parser : Parser α} {next : α → Parser β}
  {language other : Language TokenKind} {avoid shun : Set TokenKind}

theorem congr {changed : Parser α}
    (same : parser source before = changed source before)
    (parses : Parses effect room changed source before language avoid) :
    Parses effect room parser source before language avoid :=
  ⟨fun fits => same ▸ parses.ends fits, fun outcome after ran => parses.ran outcome after (same ▸ ran)⟩

theorem mono {less : Nat} {stricter : Set TokenKind}
    (parses : Parses effect room parser source before language avoid)
    (fewer : less ≤ room) (subset : avoid ⊆ stricter) :
    Parses effect less parser source before language stricter where
  ends fits := parses.ends (Nat.lt_of_lt_of_le fits fewer)
  ran outcome after ran := by
    obtain ⟨word, ran⟩ := parses.ran outcome after ran
    exact ⟨word, ran.reads, ran.ends, fun sentence rest member same apart =>
      ran.complete sentence rest member same fun inside => apart (subset inside)⟩

theorem bind (first : Parses effect room parser source before language shun)
    (second : ∀ result mid word, parser source before = some (.ok result, mid) →
      before.Reads word mid → effect.done before word mid → (word = [] → [] ∈ language) →
      Parses effect (room - word.length) (next result) source mid other avoid)
    (precedes : Precedes other avoid shun) :
    Parses effect room (parser >>= next) source before (language * other) avoid where
  ends fits := by
    obtain ⟨⟨outcome, mid⟩, ran⟩ := Option.isSome_iff_exists.mp (first.ends fits)
    obtain ⟨word, reads, ends, -⟩ := first.ran outcome mid ran
    cases outcome with
    | error error =>
      rw [bind_of_error ran]
      rfl
    | ok result =>
      rw [bind_of_ok ran]
      refine (second result mid word ran reads ends.1 ends.2.1).ends ?_
      have length := reads.length
      omega
  ran outcome after ran := by
    obtain ⟨_, failed, rfl⟩ | ⟨result, mid, start, goesOn⟩ := ran_of_bind ran
    · obtain ⟨word, reads, ends, complete⟩ := first.ran _ _ failed
      refine ⟨word, reads, ends, fun sentence rest member same apart => ?_⟩
      obtain ⟨left, inLeft, right, inRight, rfl⟩ := Language.mem_mul.mp member
      rw [List.append_assoc] at same
      obtain ⟨⟨_, absurd⟩, -⟩ :=
        complete left (right ++ rest) inLeft same (precedes right rest inRight apart)
      cases absurd
    · obtain ⟨word, reads, ⟨done, null, sound⟩, complete⟩ := first.ran _ _ start
      obtain ⟨more, reads', ends', complete'⟩ :=
        (second result mid word start reads done null).ran outcome after goesOn
      refine ⟨word ++ more, reads.trans reads', ?_, ?_⟩
      · cases outcome with
        | error error => exact ⟨effect.failed_trans reads reads' done ends'.1, ends'.2⟩
        | ok result =>
          obtain ⟨done', null', sound'⟩ := ends'
          refine ⟨effect.trans reads reads' done done', fun empty => ?_, fun silent valid => ?_⟩
          · obtain ⟨left, right⟩ := List.append_eq_nil_iff.mp empty
            exact Language.append_mem_mul (null left) (null' right)
          · obtain ⟨silent, silent'⟩ :=
              (effect.reports done).silent (effect.reports done') silent
            rw [reads.kinds] at valid
            exact Language.append_mem_mul
              (sound silent fun inside => valid (reads.kinds ▸ inside))
              (sound' silent' fun inside => valid (List.mem_append_right _ inside))
      · intro sentence rest member same apart
        obtain ⟨left, inLeft, right, inRight, rfl⟩ := Language.mem_mul.mp member
        rw [List.append_assoc] at same
        obtain ⟨-, rfl, silent⟩ :=
          complete left (right ++ rest) inLeft same (precedes right rest inRight apart)
        have further := List.append_cancel_left (reads.kinds.symm.trans same)
        obtain ⟨ok, rfl, silent'⟩ := complete' right rest inRight further apart
        exact ⟨ok, rfl, silent'.trans silent⟩

theorem less {less : Nat} (parses : Parses effect room parser source before language avoid)
    (fewer : less ≤ room) : Parses effect less parser source before language avoid :=
  parses.mono fewer subset_rfl

theorem stricter {stricter : Set TokenKind}
    (parses : Parses effect room parser source before language avoid)
    (subset : avoid ⊆ stricter) :
    Parses effect room parser source before language stricter :=
  parses.mono (Nat.le_refl _) subset

/-- In a state in which only the words of a part can be read, parsing the part is enough. -/
theorem widen (parses : Parses effect room parser source before language avoid)
    (subset : language ≤ other)
    (only : ∀ sentence rest, sentence ∈ other → before.cursor.kinds = sentence ++ rest →
      .first rest ∉ avoid → sentence ∈ language) :
    Parses effect room parser source before other avoid where
  ends := parses.ends
  ran outcome after ran := by
    obtain ⟨word, reads, ends, complete⟩ := parses.ran outcome after ran
    refine ⟨word, reads, ?_, fun sentence rest member same apart =>
      complete sentence rest (only sentence rest member same apart) same apart⟩
    cases outcome with
    | error error => exact ends
    | ok result =>
      exact ⟨ends.1, fun empty => subset (ends.2.1 empty),
        fun silent valid => subset (ends.2.2 silent valid)⟩

/-- In a state in which only the words of a part can be read, the part is parsed. -/
theorem narrow (parses : Parses effect room parser source before other avoid)
    (subset : language ≤ other)
    (only : ∀ word rest, word ∈ other → before.cursor.kinds = word ++ rest → word ∈ language) :
    Parses effect room parser source before language avoid where
  ends := parses.ends
  ran outcome after ran := by
    obtain ⟨word, reads, ends, complete⟩ := parses.ran outcome after ran
    refine ⟨word, reads, ?_, fun sentence rest member => complete sentence rest (subset member)⟩
    cases outcome with
    | error error => exact ends
    | ok result =>
      refine ⟨ends.1, fun empty => ?_, fun silent valid => ?_⟩
      · exact only [] _ (ends.2.1 empty) rfl
      · exact only word _ (ends.2.2 silent valid) reads.kinds

/-- The current token tells that no word of the other language can be read. -/
theorem left (parses : Parses effect room parser source before language avoid)
    (apart : Precedes other avoid {before.cursor.kind}) :
    Parses effect room parser source before (language + other) avoid := by
  refine parses.widen (fun _ => .inl) fun sentence rest member same follows => ?_
  refine member.resolve_right fun inside => apart sentence rest inside follows ?_
  rw [← same, ← Cursor.kind_eq_first]
  exact Set.mem_singleton _

theorem right (parses : Parses effect room parser source before language avoid)
    (apart : Precedes other avoid {before.cursor.kind}) :
    Parses effect room parser source before (other + language) avoid := by
  rw [add_comm]
  exact parses.left apart

/-- A parser that always complains accepts no word, whatever it reads. -/
theorem reported (parses : Parses effect room parser source before other Set.univ)
    (consumes : [] ∉ other)
    (tells : ∀ result after, parser source before = some (.ok result, after) →
      ¬ before.IsSilent after)
    (apart : Precedes language avoid {before.cursor.kind}) :
    Parses effect room parser source before language avoid where
  ends := parses.ends
  ran outcome after ran := by
    obtain ⟨word, reads, ends, -⟩ := parses.ran outcome after ran
    refine ⟨word, reads, ?_, fun sentence rest member same follows => ?_⟩
    · cases outcome with
      | error error => exact ends
      | ok result =>
        exact ⟨ends.1, fun empty => absurd (ends.2.1 empty) consumes,
          fun silent _ => absurd silent (tells result after ran)⟩
    · refine absurd ?_ (apart sentence rest member follows)
      rw [← same, ← Cursor.kind_eq_first]
      exact Set.mem_singleton _

theorem pure (result : α) : Parses effect room (pure result) source before 1 avoid where
  ends _ := rfl
  ran outcome after ran := by
    cases ran
    have reads : before.Reads [] before := .nil rfl rfl
    refine ⟨[], reads, ⟨(effect.quiet reads (List.forall_mem_nil _) (.refl before)).1, fun _ => rfl,
      fun _ _ => rfl⟩, ?_⟩
    rintro sentence rest rfl - -
    exact ⟨⟨result, rfl⟩, rfl, rfl⟩

/-- A parser that fails at the current token accepts no word. -/
theorem throw {error : ParseError} (found : error.found? = some before.cursor.kind) :
    Parses effect room (throw error : Parser α) source before 0 avoid where
  ends _ := rfl
  ran outcome after ran := by
    cases ran
    have reads : before.Reads [] before := .nil rfl rfl
    refine ⟨[], reads, ⟨(effect.quiet reads (List.forall_mem_nil _) (.refl before)).2, found⟩, ?_⟩
    rintro sentence rest ⟨⟩

/-- A silent step that reads a given word. -/
theorem step {rest : Parser α} (same : parser source before = rest source mid)
    (reads : before.Reads word mid) (done : effect.done before word mid)
    (silent : before.IsSilent mid)
    (parses : Parses effect (room - word.length) rest source mid language avoid) :
    Parses effect room parser source before ({word} * language) avoid := by
  let jump : Parser Unit := fun _ _ => some (.ok (), mid)
  have jumps : Parses effect room jump source before {word} ∅ := by
    refine ⟨fun _ => rfl, fun outcome after ran => ?_⟩
    cases ran
    refine ⟨word, reads, ⟨done, fun empty => empty.symm, fun _ _ => rfl⟩, ?_⟩
    rintro _ rest rfl - -
    exact ⟨⟨(), rfl⟩, rfl, silent⟩
  have jumped : (jump >>= fun _ => rest) source before = rest source mid := bind_of_ok rfl
  refine congr (same.trans jumped.symm)
    (jumps.bind (fun _ _ other ran reads' _ _ => ?_) ?_)
  · cases ran
    have length : other.length = word.length := by
      have length := reads.length
      have length' := reads'.length
      omega
    rwa [length]
  · exact .nothing

end Parses

def Idle (effect : Effect) (parser : Parser α) : Prop :=
  ∀ source before, ∃ result after, parser source before = some (.ok result, after) ∧
    before.Reads [] after ∧ effect.done before [] after ∧ before.IsSilent after

theorem Idle.of_keeps {effect : Effect} {parser : Parser α}
    (keeps : ∀ source before, ∃ result after, parser source before = some (.ok result, after) ∧
      after.cursor = before.cursor ∧ before.Keeps after) : Idle effect parser := by
  intro source before
  obtain ⟨result, after, ran, cursor, keeps⟩ := keeps source before
  have reads : before.Reads [] after := .nil (congrArg _ cursor) (congrArg _ cursor)
  exact ⟨result, after, ran, reads, (effect.quiet reads (List.forall_mem_nil _) keeps).1,
    keeps.diagnostics⟩

theorem Idle.bind {effect : Effect} {parser : Parser α} {next : α → Parser β}
    (first : Idle effect parser) (second : ∀ result, Idle effect (next result)) :
    Idle effect (parser >>= next) := by
  intro source before
  obtain ⟨result, mid, ran, reads, done, silent⟩ := first source before
  obtain ⟨last, after, ran', reads', done', silent'⟩ := second result source mid
  exact ⟨last, after, (bind_of_ok ran).trans ran', reads.trans reads',
    effect.trans reads reads' done done', silent'.trans silent⟩

theorem idle_pure {effect : Effect} (result : α) : Idle effect (pure result) :=
  .of_keeps fun _ before => ⟨result, before, rfl, rfl, .refl before⟩

theorem idle_currentSpan {effect : Effect} : Idle effect currentSpan :=
  .of_keeps fun _ state => ⟨state.cursor.current.span, state, rfl, rfl, .refl state⟩

theorem idle_spanFrom {effect : Effect} (start : Span) : Idle effect (spanFrom start) :=
  .of_keeps fun _ before => ⟨_, before, rfl, rfl, .refl before⟩

theorem idle_locate {effect : Effect} (span : Span) : Idle effect (locate span) :=
  .of_keeps fun _ before => ⟨_, before, rfl, rfl, .refl before⟩

theorem idle_build_store {effect : Effect} (node : Node) (location : Location) :
    Idle effect (build (·.store node location)) :=
  .of_keeps fun _ _ => ⟨_, _, rfl, rfl, ⟨rfl, rfl, rfl, rfl⟩⟩

theorem idle_store {effect : Effect} (node : Node) (start : Span) : Idle effect (store node start) :=
  .of_keeps fun _ _ => ⟨_, _, rfl, rfl, ⟨rfl, rfl, rfl, rfl⟩⟩

theorem build_apply (change : Builder → α × Builder) : build change source before =
    some (.ok (change before.builder).1, { before with builder := (change before.builder).2 }) :=
  rfl

theorem eat_apply (kind : TokenKind) : eat kind source before =
    some (.ok (before.cursor.eat kind).1,
      { before with cursor := (before.cursor.eat kind).2 }) :=
  rfl

theorem eat_ok {kind : TokenKind} (current : before.cursor.kind = kind) :
    eat kind source before = some (.ok true, { before with cursor := before.cursor.advance }) := by
  rw [eat_apply, Cursor.eat, if_pos (Cursor.isAt_iff.mpr current)]

theorem eat_absent {kind : TokenKind} (absent : before.cursor.kind ≠ kind) :
    eat kind source before = some (.ok false, before) := by
  rw [eat_apply, Cursor.eat, if_neg fun here => absent (Cursor.isAt_iff.mp here)]

theorem expect_apply (kind : TokenKind) : expect kind source before =
    match before.cursor.expect kind with
    | .ok (token, cursor) => some (.ok token, { before with cursor })
    | .error error => some (.error error, before) := by
  change (match before.cursor.expect kind with
    | .ok (token, cursor) => (do setCursor cursor; return token : Parser Token)
    | .error error => throw error) source before = _
  cases before.cursor.expect kind <;> rfl

theorem expect_ok {kind : TokenKind} (current : before.cursor.kind = kind) :
    expect kind source before =
      some (.ok before.cursor.current, { before with cursor := before.cursor.advance }) := by
  rw [expect_apply, Cursor.expect, if_pos (Cursor.isAt_iff.mpr current)]

theorem expect_error {kind : TokenKind} (absent : before.cursor.kind ≠ kind) :
    ∃ error, expect kind source before = some (.error error, before) ∧
      error.found? = some before.cursor.kind := by
  rw [expect_apply, Cursor.expect, if_neg fun here => absent (Cursor.isAt_iff.mp here)]
  exact ⟨_, rfl, rfl⟩

theorem tryCatch_apply (parser : Parser α) (handle : ParseError → Parser α) :
    tryCatch parser handle source before =
      match parser source before with
      | some (.error error, mid) => handle error source mid
      | ended => ended := by
  cases ran : parser source before with
  | none =>
    simp [tryCatch, tryCatchThe, MonadExceptOf.tryCatch, ExceptT.tryCatch, ExceptT.mk, bind,
      StateT.bind, ran]
  | some result =>
    obtain ⟨error | result, mid⟩ := result
    · simp [tryCatch, tryCatchThe, MonadExceptOf.tryCatch, ExceptT.tryCatch, ExceptT.mk, bind,
        StateT.bind, ran]
    · simp only [tryCatch, tryCatchThe, MonadExceptOf.tryCatch, ExceptT.tryCatch, ExceptT.mk, bind,
        StateT.bind, ran, Option.bind_some]
      rfl

theorem mapError_apply (change : ParseError → ParseError) (parser : Parser α) :
    mapError change parser source before =
      (parser source before).map fun (outcome, after) => (outcome.mapError change, after) := by
  rw [mapError, tryCatch_apply]
  cases parser source before with
  | none => rfl
  | some result => obtain ⟨_ | _, _⟩ := result <;> rfl

theorem State.reads_advance {kind : TokenKind} (current : before.cursor.kind = kind)
    (inside : kind ≠ .endOfFile) :
    before.Reads [kind] { before with cursor := before.cursor.advance } where
  kinds := by
    rw [Cursor.kinds_eq_cons (current ▸ inside), current]
    rfl
  inside ended := inside (List.mem_singleton.mp ended).symm
  position := by
    refine Cursor.position_advance (Bool.eq_false_iff.mpr fun ended => inside ?_)
    exact current ▸ Cursor.isAtEnd_iff.mp ended

namespace Parses

variable {effect : Effect} {room : Nat} {parser : Parser α} {next : α → Parser β}
  {language other : Language TokenKind} {avoid shun : Set TokenKind} {kind : TokenKind}

theorem idle {parser : Parser α} (idle : Idle effect parser)
    (parses : ∀ result mid, before.Reads [] mid → effect.done before [] mid →
      Parses effect room (next result) source mid language avoid) :
    Parses effect room (parser >>= next) source before language avoid := by
  obtain ⟨result, mid, ran, reads, done, silent⟩ := idle source before
  have step := Parses.step (bind_of_ok ran) reads done silent (parses result mid reads done)
  exact (one_mul language).symm ▸ step

theorem of_idle (idle : Idle effect parser) :
    Parses effect room parser source before 1 avoid := by
  have parses : Parses effect room (parser >>= Pure.pure) source before 1 avoid :=
    .idle idle fun result _ _ _ => .pure result
  rwa [bind_pure] at parses

/-- A plain token is consumed. -/
theorem token {rest : Parser α} (plain : kind.isPlain) (current : before.cursor.kind = kind)
    (same : parser source before = rest source { before with cursor := before.cursor.advance })
    (parses : ∀ mid, before.Reads [kind] mid → before.Keeps mid →
      Parses effect (room - 1) rest source mid language avoid) :
    Parses effect room parser source before ({[kind]} * language) avoid := by
  have reads := State.reads_advance current (TokenKind.ne_endOfFile plain)
  have keeps : before.Keeps { before with cursor := before.cursor.advance } := ⟨rfl, rfl, rfl, rfl⟩
  have done := (effect.quiet reads (List.forall_mem_singleton.mpr plain) keeps).1
  exact .step same reads done rfl (parses _ reads keeps)

theorem advance {next : Token → Parser α} (plain : kind.isPlain)
    (current : before.cursor.kind = kind)
    (parses : ∀ mid, before.Reads [kind] mid → before.Keeps mid →
      Parses effect (room - 1) (next before.cursor.current) source mid language avoid) :
    Parses effect room (Parser.advance >>= next) source before ({[kind]} * language) avoid :=
  .token plain current rfl parses

theorem advanced (plain : kind.isPlain) (current : before.cursor.kind = kind) :
    Parses effect room Parser.advance source before {[kind]} ∅ := by
  have parses : Parses effect room (Parser.advance >>= Pure.pure) source before ({[kind]} * 1) ∅ :=
    .advance plain current fun mid _ _ => .pure before.cursor.current
  rwa [bind_pure, mul_one] at parses

theorem peek {next : Token → Parser α}
    (parses : Parses effect room (next before.cursor.current) source before language avoid) :
    Parses effect room (Parser.current >>= next) source before language avoid :=
  ⟨parses.ends, parses.ran⟩

theorem peekKind {next : TokenKind → Parser α}
    (parses : Parses effect room (next before.cursor.kind) source before language avoid) :
    Parses effect room (Parser.kind >>= next) source before language avoid :=
  ⟨parses.ends, parses.ran⟩

/-- A plain token is consumed if it is there. -/
theorem eat {next : Bool → Parser α} (plain : kind.isPlain)
    (taken : ∀ mid, before.Reads [kind] mid → before.Keeps mid →
      Parses effect (room - 1) (next true) source mid language avoid)
    (left : before.cursor.kind ≠ kind → Parses effect room (next false) source before other avoid)
    (apart : Precedes other avoid {kind}) :
    Parses effect room (Parser.eat kind >>= next) source before ({[kind]} * language + other)
      avoid := by
  by_cases current : before.cursor.kind = kind
  · have eaten : before.cursor.eat kind = (true, before.cursor.advance) :=
      if_pos (Cursor.isAt_iff.mpr current)
    have same : (Parser.eat kind >>= next) source before =
        next true source { before with cursor := before.cursor.advance } := by
      refine bind_of_ok ?_
      rw [eat_apply, eaten]
    refine (Parses.token plain current same taken).left ?_
    rwa [current]
  · have stays : before.cursor.eat kind = (false, before.cursor) :=
      if_neg fun here => current (Cursor.isAt_iff.mp here)
    have same : (Parser.eat kind >>= next) source before = next false source before := by
      refine bind_of_ok ?_
      rw [eat_apply, stays]
    refine ((left current).congr same).right (.token fun same => current ?_)
    exact (Set.mem_singleton_iff.mp same).symm

theorem eaten (plain : kind.isPlain) :
    Parses effect room (Parser.eat kind) source before (Grammar.maybe {[kind]}) {kind} := by
  have parses : Parses effect room (Parser.eat kind >>= Pure.pure) source before
      ({[kind]} * 1 + 1) {kind} :=
    .eat plain (fun _ _ _ => .pure true) (fun _ => .pure false) (.one subset_rfl)
  rwa [bind_pure, mul_one] at parses

/-- The current token tells that no word of the language can be read, and the parser fails. -/
theorem fail {error : ParseError} (ran : parser source before = some (.error error, before))
    (found : error.found? = some before.cursor.kind)
    (apart : Precedes language avoid {before.cursor.kind}) :
    Parses effect room parser source before language avoid := by
  have fails : Parses effect room (MonadExcept.throw error : Parser α) source before 0 avoid :=
    .throw found
  have fails := fails.left apart
  rw [zero_add] at fails
  exact fails.congr ran

theorem expect (plain : kind.isPlain) :
    Parses effect room (Parser.expect kind) source before {[kind]} ∅ := by
  by_cases current : before.cursor.kind = kind
  · have parses : Parses effect room (Parser.expect kind) source before ({[kind]} * 1) ∅ :=
      .token plain current ((expect_ok current).trans rfl) fun mid _ _ => .pure before.cursor.current
    rwa [mul_one] at parses
  · obtain ⟨error, ran, found⟩ := expect_error current
    refine .fail ran found ?_
    rw [← mul_one ({[kind]} : Language TokenKind)]
    exact .token fun same => current (Set.mem_singleton_iff.mp same).symm

theorem mapError {change : ParseError → ParseError}
    (same : ∀ error, (change error).found? = error.found?)
    (parses : Parses effect room parser source before language avoid) :
    Parses effect room (Parser.mapError change parser) source before language avoid where
  ends fits := by
    obtain ⟨⟨outcome, after⟩, ran⟩ := Option.isSome_iff_exists.mp (parses.ends fits)
    rw [mapError_apply, ran]
    rfl
  ran outcome after ran := by
    rw [mapError_apply] at ran
    obtain ⟨⟨outcome, after⟩, ran, ⟨⟩⟩ := Option.map_eq_some_iff.mp ran
    obtain ⟨word, reads, ends, complete⟩ := parses.ran outcome after ran
    refine ⟨word, reads, ?_, fun sentence rest member apart follows => ?_⟩
    · cases outcome with
      | error error => exact ⟨ends.1, (same error).trans ends.2⟩
      | ok result => exact ends
    · obtain ⟨⟨result, rfl⟩, same⟩ := complete sentence rest member apart follows
      exact ⟨⟨result, rfl⟩, same⟩

theorem andIdle {next : α → Parser β}
    (parses : Parses effect room parser source before language avoid)
    (idle : ∀ result, Idle effect (next result)) :
    Parses effect room (parser >>= next) source before language avoid := by
  rw [← mul_one language]
  exact parses.bind (fun result _ _ _ _ _ _ => .of_idle (idle result)) (.one subset_rfl)

theorem andPure (parses : Parses effect room parser source before language avoid)
    (result : α → β) :
    Parses effect room (parser >>= fun value => Pure.pure (result value)) source before language
      avoid := by
  exact parses.andIdle fun value => idle_pure (result value)

theorem map (change : α → β) (parses : Parses effect room parser source before language avoid) :
    Parses effect room (change <$> parser) source before language avoid := by
  rw [map_eq_pure_bind]
  exact parses.andPure change

theorem exhausted : Parses effect 0 (Parser.exhausted : Parser α) source before language avoid where
  ends fits := absurd fits (Nat.not_lt_zero _)
  ran outcome after ran := by
    have absurd : none = some (outcome, after) := ran
    cases absurd

/-- A language that satisfies the equation of a round is the language of the loop. A round that goes
on has consumed a token. -/
theorem rounds {round : σ → Parser (Round σ α)} {body : Language TokenKind}
    (fixed : body = language)
    (step : ∀ state before count (next : Round σ α → Parser α), count ≤ room →
      (∀ state mid, Parses effect (count - 1) (next (.again state)) source mid language avoid) →
      (∀ result mid, Parses effect count (next (.done result)) source mid 1 avoid) →
      Parses effect count (round state >>= next) source before body avoid)
    (count : Nat) (state : σ) (before : State) :
    Parses effect (min room count) (Parser.rounds round count state) source before language avoid := by
  induction count generalizing state before with
  | zero => exact exhausted.less (Nat.min_le_right ..)
  | succ count ih =>
    have parses := step state before (min room (count + 1))
      (fun
        | .again state => Parser.rounds round count state
        | .done result => Pure.pure result)
      (Nat.min_le_left ..)
      (fun state mid => (ih state mid).less (by omega))
      (fun result mid => .pure result)
    rw [fixed] at parses
    refine parses.congr ?_
    exact congrFun (congrFun (bind_congr fun ended => by cases ended <;> rfl) source) before

theorem loop {start : σ} {round : σ → Parser (Round σ α)} {body : Language TokenKind}
    (fits : room ≤ source.budget) (fixed : body = language)
    (step : ∀ state before count (next : Round σ α → Parser α), count ≤ room →
      (∀ state mid, Parses effect (count - 1) (next (.again state)) source mid language avoid) →
      (∀ result mid, Parses effect count (next (.done result)) source mid 1 avoid) →
      Parses effect count (round state >>= next) source before body avoid) :
    Parses effect room (Parser.loop start round) source before language avoid := by
  have parses := Parses.rounds fixed step source.budget start before
  rw [Nat.min_eq_left fits] at parses
  have same : Parser.loop start round source before =
      Parser.rounds round source.budget start source before := rfl
  exact parses.congr same

theorem oneOf_mul {kinds : List TokenKind} (current : before.cursor.kind = kind)
    (member : kind ∈ kinds)
    (parses : Parses effect room parser source before ({[kind]} * language) avoid) :
    Parses effect room parser source before (Grammar.anyOf kinds * language) avoid := by
  refine parses.widen (mul_le_mul_left (fun _ same => ⟨kind, member, same⟩) language) ?_
  rintro _ rest inside same -
  obtain ⟨_, ⟨other, -, rfl⟩, part, inPart, rfl⟩ := Language.mem_mul.mp inside
  rw [Cursor.kind_eq_first, same] at current
  exact Language.append_mem_mul (congrArg ([·]) current) inPart

theorem oneOf {kinds : List TokenKind} (current : before.cursor.kind = kind) (member : kind ∈ kinds)
    (parses : Parses effect room parser source before {[kind]} avoid) :
    Parses effect room parser source before (Grammar.anyOf kinds) avoid := by
  rw [← mul_one (Grammar.anyOf kinds)]
  exact oneOf_mul current member ((mul_one ({[kind]} : Language TokenKind)).symm ▸ parses)

/-- If the current token has the right shape, its value does not matter. -/
theorem valued {γ : Type} {make : γ → TokenKind} {value : γ}
    (current : before.cursor.kind = make value)
    (parses : Parses effect room parser source before {[make value]} avoid) :
    Parses effect room parser source before (Grammar.valued make) avoid := by
  refine parses.widen (fun _ same => ⟨value, same⟩) ?_
  rintro _ rest ⟨other, rfl⟩ same -
  rw [Cursor.kind_eq_first, same] at current
  exact congrArg ([·]) current

end Parses

end Parser

end IncrementalFrontend
