import IncrementalFrontend.Proofs.Parser.Recovery

/-!
The parsers of declarations parse the languages of declarations. Those in braces nest, so a
statement within them may be any that nests.
-/
namespace IncrementalFrontend

open Grammar Computability

namespace Parser

variable {α : Type} {effect : Effect} {room : Nat} {source : Source} {before : State}
  {opening : Span}

structure ParsesMembers (room : Nat) (member : Parser Unit) (source : Source)
    (language : Language TokenKind) : Prop where
  opens : Opens language startsMember
  parses (mid : State) (inside : ¬ mid.IsAtListEnd) : Parses nesting room member source mid language ∅

theorem ParsesMembers.less {member : Parser Unit} {language : Language TokenKind} {fewer : Nat}
    (members : ParsesMembers room member source language) (le : fewer ≤ room) :
    ParsesMembers fewer member source language :=
  ⟨members.opens, fun mid inside => (members.parses mid inside).less le⟩

section

variable {statement : Parser Unit} {language : Language TokenKind}
  (fits : room ≤ source.budget) (statements : ParsesMembers (room - 1) statement source language)
include fits statements

theorem parses_members (mid : State) :
    Parses nesting (room - 1) (loop () fun _ => memberRound statement) source mid language∗
      {.symbol .braceClose}ᶜ := by
  refine .loop (by omega) (Language.one_add_self_mul_kstar_eq_kstar language)
    fun _ before count next fewer again done => ?_
  refine .memberRound statements.opens.mul (fun mid inside => ?_) (done ())
  refine ((statements.parses mid inside).less fewer).bind (fun _ after word _ _ _ null => ?_) .nothing
  refine (again () after).less ?_
  have consumed : word ≠ [] := fun empty => statements.opens.nil_notMem (null empty)
  have := List.length_pos_of_ne_nil consumed
  omega

/-- `[prototype] module name { statements }` -/
theorem parses_moduleDeclaration (visibility : Visibility) (start : Span) :
    Parses nesting room (moduleDeclaration statement visibility start) source before
      (moduleDecl language) ∅ := by
  have shape : moduleDecl language = maybe (keyword .kwPrototype) * (keyword .kwModule *
      (valued .identifier * (mark .braceOpen * (language∗ * mark .braceClose) * 1))) := by
    simp only [moduleDecl, block, mul_assoc, mul_one]
  rw [shape]
  refine .bind (.eaten rfl) (fun isPrototype mid word _ _ _ _ => ?_) (.token (by simp))
  refine .bind (.expect rfl) (fun _ mid word _ _ _ _ => ?_) .nothing
  refine .bind .expectIdentifier (fun name mid word _ _ _ _ => ?_) .nothing
  refine .expectBraced (stopsAtBrace statement) (fun mid => ?_) (fun opening members mid => ?_)
  · refine (parses_members fits statements mid).less (by omega)
  · exact .of_idle (idle_add _ start)

end

/-- Where an element has no comma, the list has to end. -/
theorem parses_listEnd {next : Parser α} {more : Language TokenKind}
    (opens : Opens more startsMember)
    (parses : ∀ mid, Parses nesting room next source mid (1 + more) {.symbol .braceClose}ᶜ)
    (name : Name) :
    Parses nesting room ((do
      flushComments
      unless (← isAt (.symbol .braceClose)) || (← isAtEnd) do
        whileParsing "enum" name (throw (.unexpected "`,` or `\x7d`" (← current))) : Parser Unit) >>=
      fun _ => next) source before 1 {.symbol .braceClose}ᶜ := by
  rw [bind_assoc]
  refine .idle idle_flushComments fun _ mid _ _ => ?_
  simp only [bind_assoc]
  refine .peekAt (.peekAtEnd ?_)
  have decides : (mid.cursor.isAt (.symbol .braceClose) || mid.cursor.isAtEnd) = true ↔
      mid.IsAtListEnd := by
    rw [Bool.or_eq_true, Cursor.isAt_iff, Cursor.isAtEnd_iff, State.IsAtListEnd]
  by_cases ended : mid.IsAtListEnd
  · rw [if_pos (decides.mpr ended), pure_bind]
    refine (parses mid).narrow (fun _ => .inl) fun word rest member kinds => ?_
    refine member.resolve_right fun inside => ?_
    obtain ⟨kind, tail, rfl, start⟩ := opens word inside
    have first := (Cursor.kind_eq_first mid.cursor).trans (congrArg _ kinds)
    exact Bool.false_ne_true (ended.startsMember_eq.symm.trans (first ▸ start))
  · rw [if_neg (decides.not.mpr ended), bind_assoc]
    have fails : Parses nesting room (whileParsing "enum" name
        (throw (.unexpected "`,` or `\x7d`" mid.cursor.current) : Parser Unit) >>= fun _ => next)
        source mid
        (0 * (1 + more)) {.symbol .braceClose}ᶜ :=
      .bind (parses_whileParsing "enum" name (.throw rfl))
        (fun _ mid _ _ _ _ _ => (parses mid).less (Nat.sub_le ..)) .nothing
    rw [zero_mul] at fails
    rw [← zero_add (1 : Language TokenKind)]
    refine .peek (fails.left (.one ?_))
    rintro _ rfl closes
    exact ended (.inl closes)

/-- What comes after an element: a comma, or nothing if the list ends. -/
theorem Parses.enumElement {next : Parser α} {more all : Language TokenKind}
    (fits : room ≤ source.budget) (opens : Opens more startsMember) (same : 1 + more = all)
    (parses : ∀ mid, Parses nesting (room - 1) next source mid all {.symbol .braceClose}ᶜ)
    (name : Name) :
    Parses nesting room (enumElement name >>= fun _ => next) source before
      (Grammar.valued .identifier * initialized * (mark .comma * all + 1))
      {.symbol .braceClose}ᶜ := by
  subst same
  unfold Parser.enumElement
  simp only [bind_assoc]
  rw [mul_assoc]
  refine .idle idle_currentSpan fun start mid _ _ => ?_
  refine .bind (parses_whileParsing "enum" name .expectIdentifier)
    (fun element mid word _ _ _ null => ?_) .nothing
  refine .bind (parses_whileParsing "enum" name (parses_initialized (by omega)))
    (fun init mid more _ _ _ _ => ?_) ?_
  · have named : word ≠ [] := fun empty => by
      obtain ⟨_, absurd⟩ := null empty
      cases absurd
    have := List.length_pos_of_ne_nil named
    refine .idle (idle_add _ start) fun _ mid _ _ => ?_
    refine .eat rfl (fun mid _ _ => ?_) (fun missing => ?_) ?_
    · exact (parses mid).less (by omega)
    · simp only [Bool.false_eq_true, if_false]
      exact (parses_listEnd opens parses name).less (by omega)
    · exact .one (by simp)
  · exact .add (.token (by decide)) (.one (by decide))

/-- The elements of an enumeration up to its closing brace. -/
theorem parses_enumElements (fits : room ≤ source.budget) (name : Name) :
    Parses nesting room (loop () fun _ => memberRound (enumElement name)) source before
      (listed (valued .identifier * initialized)) {.symbol .braceClose}ᶜ := by
  let element : Language TokenKind := valued .identifier * initialized
  have listed_eq : 1 + element * (mark .comma * listed element + 1) = listed element :=
    listed_unrolled element
  refine .loop fits listed_eq fun _ before count next fewer again done => ?_
  have opens : Opens (element * (mark .comma * listed element + 1)) startsMember :=
    .mul (.mul (.valued fun _ => rfl))
  refine .memberRound opens (fun mid inside => ?_) (done ())
  exact .enumElement (by omega) opens listed_eq (again ()) name

theorem enumDeclaration_eq (visibility : Visibility) (start : Span) :
    enumDeclaration visibility start = (do
      let _ ← advance
      let name ← expectIdentifier
      let opening ← expectSymbol .braceOpen
      let members ← enclosed (loop () fun _ => memberRound (enumElement name)) opening.span
      add (.enumDecl name visibility members) start) := by
  simp only [enumDeclaration, enclosed, bind_assoc, pure_bind]
  rfl

/-- `enum name { elements }` -/
theorem parses_enumDeclaration (fits : room ≤ source.budget)
    (current : before.cursor.kind = .keyword .kwEnum) (visibility : Visibility) (start : Span) :
    Parses nesting room (enumDeclaration visibility start) source before enumDecl ∅ := by
  have shape : enumDecl = keyword .kwEnum * (valued .identifier *
      (mark .braceOpen * (listed (valued .identifier * initialized) * mark .braceClose) * 1)) := by
    simp only [enumDecl, mul_assoc, mul_one]
  rw [shape, enumDeclaration_eq]
  refine .advance rfl current fun mid _ _ => ?_
  refine .bind .expectIdentifier (fun name mid word _ _ _ _ => ?_) .nothing
  refine .expectBraced (stopsAtBrace _) (fun mid => ?_) (fun opening members mid => ?_)
  · exact parses_enumElements (by omega) name
  · exact .of_idle (idle_add _ start)

/-- `var|const|param|ref name [: type] [= init] ;` -/
theorem parses_variableDeclaration (fits : room ≤ source.budget) {word : Keyword}
    (current : before.cursor.kind = .keyword word)
    (member : word ∈ [Keyword.kwVar, .kwConst, .kwParam, .kwRef]) (visibility : Visibility)
    (start : Span) :
    Parses nesting room (variableDeclaration visibility start) source before variableDecl ∅ := by
  have shape : variableDecl = keywords [.kwVar, .kwConst, .kwParam, .kwRef] *
      (valued .identifier * (typed * (initialized * mark .semicolon))) := by
    simp only [variableDecl, mul_assoc]
  rw [shape, variableDeclaration, variableKind, bind_assoc]
  refine .oneOf_mul current (List.mem_map_of_mem member) (.advance rfl current fun mid _ _ => ?_)
  refine .idle (by split <;> exact idle_pure _) fun kind mid _ _ => ?_
  refine .bind .expectIdentifier (fun name mid word _ _ _ _ => ?_) .nothing
  refine .bind (parses_typed (by omega)) (fun type mid word _ _ _ _ => ?_)
    (.mul precedes_initialized (.last (by decide)))
  refine .bind (parses_initialized (by omega)) (fun init mid word _ _ _ _ => ?_) (.last (by decide))
  exact .idle (idle_add _ start) fun _ mid _ _ => .andPure (.expect rfl) fun _ => ()

theorem anyOf_cons (kind : TokenKind) (kinds : List TokenKind) :
    anyOf (kind :: kinds) = {[kind]} + anyOf kinds := by
  ext word
  constructor
  · rintro ⟨first, member, rfl⟩
    rcases List.mem_cons.mp member with rfl | member
    · exact .inl rfl
    · exact .inr ⟨first, member, rfl⟩
  · rintro (rfl | ⟨first, member, rfl⟩)
    · exact ⟨kind, List.mem_cons_self, rfl⟩
    · exact ⟨first, List.mem_cons_of_mem _ member, rfl⟩

theorem anyOf_nil : anyOf [] = 0 := by
  ext word
  constructor
  · rintro ⟨_, absurd, -⟩
    cases absurd
  · rintro ⟨⟩

theorem parses_functionKind :
    Parses effect room functionKind source before (keywords [.kwProc, .kwIter]) ∅ := by
  have shape : keywords [.kwProc, .kwIter] =
      keyword .kwProc * 1 + (keyword .kwIter * 1 + 0) := by
    simp only [keywords, List.map, anyOf_cons, anyOf_nil, mul_one]
  rw [shape, functionKind]
  refine .eat rfl (fun mid _ _ => .pure _) (fun _ => ?_) (.add (.token (by simp)) nofun)
  exact .eat rfl (fun mid _ _ => .pure _) (fun _ => .peek (.throw rfl)) nofun

theorem idle_linkageName_internal : Idle effect (linkageName .internal) := by
  refine .of_keeps fun source before => ⟨none, before, ?_, rfl, .refl before⟩
  have peeks : Parser.kind source before = some (.ok before.cursor.kind, before) := rfl
  rw [linkageName, bind_of_ok peeks]
  generalize before.cursor.kind = kind
  cases kind <;> rfl

theorem mem_primary_of_string {content : Name} {rest : List TokenKind} {word : List TokenKind}
    (member : word ∈ Grammar.primary Grammar.expression)
    (current : .first (word ++ rest) = TokenKind.string content) : word ∈ valued .string := by
  rcases member with ⟨_, rfl⟩ | ⟨_, rfl⟩ | ⟨_, rfl⟩ | inParens
  · cases current
  · cases current
  · exact ⟨_, rfl⟩
  · obtain ⟨_, rfl, _, _, rfl⟩ := Language.mem_mul.mp inParens
    cases current

theorem parses_linkageName (fits : room ≤ source.budget) {linkage : Linkage} (linked : linkage ≠ .internal) :
    Parses effect room (linkageName linkage) source before (maybe (valued .string))
      (Set.range TokenKind.string) := by
  unfold linkageName
  refine .peekKind ?_
  split
  · rename_i content current
    rw [if_neg linked]
    refine .left ?_ (.one ?_)
    · have parses : Parses effect room (primary expression) source before
          (Grammar.primary Grammar.expression) ∅ :=
        parses_primary (by decide) fun mid => parses_expression (by omega)
      refine .andPure (.stricter (parses.narrow (fun _ => (.inr <| .inr <| .inl ·)) ?_)
        (Set.empty_subset _)) some
      intro word rest member kinds
      have first : TokenKind.first (word ++ rest) = .string content := by
        rw [← kinds, ← Cursor.kind_eq_first]
        exact current
      exact mem_primary_of_string member first
    · rw [current]
      exact Set.singleton_subset_iff.mpr ⟨content, rfl⟩
  · rename_i absent
    exact .right (.pure none) (.valued fun content same => absent content (Set.mem_singleton_iff.mp same).symm)

section

variable {statement : Parser Unit} {language body : Language TokenKind}
  {next : Option (List NodeId) → Parser α}

/-- Where no body begins, there is a semicolon or an error. -/
theorem parses_functionBody_absent (bodiless : before.cursor.kind ≠ .symbol .braceOpen)
    (absent : ∀ mid, Parses nesting (room - 1) (next none) source mid language ∅) :
    Parses nesting room (functionBody statement >>= next) source before
      (mark .semicolon * language) ∅ := by
  rw [functionBody, bind_assoc, ← add_zero (mark .semicolon * language)]
  refine .eat rfl (fun mid _ _ => ?_) (fun missing => ?_) nofun
  · exact absent mid
  · simp only [Bool.false_eq_true, if_false, bind_assoc]
    refine .peekAt ?_
    rw [if_neg fun here => bodiless (Cursor.isAt_iff.mp here), bind_assoc]
    exact .peek (.fail (bind_of_error rfl) rfl nofun)

theorem functionBody_eq (current : before.cursor.kind = .symbol .braceOpen) :
    (functionBody statement >>= next) source before = (advance >>= fun opening =>
      enclosed (loop () fun _ => memberRound statement) opening.span >>= fun nodes =>
        next (some nodes)) source before := by
  have stays : before.cursor.eat (.symbol .semicolon) = (false, before.cursor) :=
    if_neg fun here => by cases current.symm.trans (Cursor.isAt_iff.mp here)
  have ate : eatSymbol .semicolon source before = some (.ok false, before) := by
    rw [eatSymbol, eat_apply, stays]
  have looks : isAt (.symbol .braceOpen) source before = some (.ok true, before) := by
    have here := Cursor.isAt_iff.mpr current
    rw [← here]
    rfl
  simp only [functionBody, bind_assoc]
  rw [bind_of_ok ate]
  simp only [Bool.false_eq_true, if_false, bind_assoc]
  rw [bind_of_ok looks]
  simp only [if_true, bind_assoc, pure_bind]
  rfl

variable (fits : room ≤ source.budget) (statements : ParsesMembers (room - 1) statement source language)
include fits statements

/-- A body, and what comes after it. -/
theorem parses_functionBody_present {avoid : Set TokenKind} {more : Language TokenKind}
    (current : before.cursor.kind = .symbol .braceOpen)
    (present : ∀ nodes mid, Parses nesting (room - 1) (next (some nodes)) source mid more avoid) :
    Parses nesting room (functionBody statement >>= next) source before
      (mark .braceOpen * (language∗ * mark .braceClose) * more) avoid :=
  .congr (functionBody_eq current) (.braced current rfl (stopsAtBrace statement)
    (parses_members fits statements) (fun nodes mid => present nodes mid))

theorem parses_functionBody
    (absent : ∀ mid, Parses nesting (room - 1) (next none) source mid 1 ∅)
    (present : ∀ nodes mid, Parses nesting (room - 1) (next (some nodes)) source mid 1 ∅) :
    Parses nesting room (functionBody statement >>= next) source before
      (block language + mark .semicolon) ∅ := by
  by_cases current : before.cursor.kind = .symbol .braceOpen
  · have parses := parses_functionBody_present fits statements current present
    rw [mul_one, ← mul_assoc] at parses
    exact parses.left (.last (by simp [current]))
  · have parses : Parses nesting room (functionBody statement >>= next) source before
      (mark .semicolon * 1) ∅ := parses_functionBody_absent current absent
    rw [mul_one] at parses
    refine parses.right ?_
    rw [block, mul_assoc]
    exact .token fun same => current (Set.mem_singleton_iff.mp same).symm

omit fits statements in
theorem not_silent_of_bind {β : Type} {parser : Parser β} {next : β → Parser α} {avoid : Set TokenKind}
    {result : α} {after : State} (first : Parses nesting room parser source before language avoid)
    (tells : ∀ result mid last after, next result source mid = some (.ok last, after) →
      mid.Reports after ∧ ¬ mid.IsSilent after)
    (ran : (parser >>= next) source before = some (.ok result, after)) : ¬ before.IsSilent after := by
  obtain ⟨middle, mid, start, rest⟩ := ok_of_bind ran
  obtain ⟨word, -, ends, -⟩ := first.ran _ mid start
  obtain ⟨reports, told⟩ := tells middle mid result after rest
  exact fun silent => told ((nesting.reports ends.1).silent reports silent).2

/-- A list in braces that is not used. -/
theorem parses_list (current : before.cursor.kind = .symbol .braceOpen) :
    Parses nesting room (advance >>= fun opening =>
      enclosed (loop () fun _ => memberRound statement) opening.span) source before
      (mark .braceOpen * (language∗ * mark .braceClose)) ∅ := by
  have parses : Parses nesting room (advance >>= fun opening =>
      enclosed (loop () fun _ => memberRound statement) opening.span >>= pure) source before
      (mark .braceOpen * (language∗ * mark .braceClose) * 1) ∅ :=
    .braced current rfl (stopsAtBrace statement) (parses_members fits statements)
      fun nodes mid => .pure nodes
  simpa only [bind_pure, mul_one] using parses

/-- Where a body is forbidden, it is read and reported. -/
theorem parses_functionBody_forbidden {more : Language TokenKind}
    (absent : ∀ mid, Parses nesting (room - 1) (next none) source mid 1 ∅)
    (present : ∀ nodes mid, Parses nesting (room - 1) (next (some nodes)) source mid more Set.univ)
    (tells : ∀ nodes mid result after, next (some nodes) source mid = some (.ok result, after) →
      mid.Reports after ∧ ¬ mid.IsSilent after) :
    Parses nesting room (functionBody statement >>= next) source before (mark .semicolon) ∅ := by
  by_cases current : before.cursor.kind = .symbol .braceOpen
  · refine .stricter ?_ (Set.empty_subset _)
    refine .reported (parses_functionBody_present fits statements current present) ?_ ?_ ?_
    · have opens : Opens (mark .braceOpen * (language∗ * mark .braceClose) * more) startsMember :=
        .mul (.mul (.token rfl))
      exact opens.nil_notMem
    · intro result after ran
      rw [functionBody_eq current] at ran
      simp only [← bind_assoc] at ran
      exact not_silent_of_bind (parses_list fits statements current) tells ran
    · exact .last (by simp [current])
  · rw [← mul_one (mark .semicolon)]
    exact parses_functionBody_absent current absent

end

def functionEnd (start : Span) (linkage : Linkage) (name : Name)
    (declaration : Option (List NodeId) → Node) (body : Option (List NodeId)) : Parser Unit := do
  if linkage = .external && body.isSome then
    let message := "extern function `" ++ (← lookup name) ++ "` cannot have a body"
    report ⟨.invalidFunction message, ← spanFrom start, none⟩
  add (declaration body) start

def functionRest (statement : Parser Unit) (visibility : Visibility) (start : Span)
    (linkage : Linkage) (linkageName : Option NodeId) : Parser Unit := do
  let isInline ← eatKeyword .kwInline
  let isOverride ← eatKeyword .kwOverride
  let kind ← functionKind
  let name ← expectIdentifier
  let formals ← whileParsing "function" name formals
  let returnIntent ← returnIntent
  let returnType ← afterSymbol .colon typeExpression
  let doesThrow ← eatKeyword .kwThrows
  let condition ← if ← eatKeyword .kwWhere then some <$> expression else pure none
  discardComments
  let body ← functionBody statement
  functionEnd start linkage name (fun body => .functionDecl
    { name, visibility, linkage, linkageName, kind, returnIntent, isInline, isOverride, doesThrow,
      formals, returnType, condition, body }) body

theorem functionDeclaration_eq (statement : Parser Unit) (visibility : Visibility) (start : Span) :
    functionDeclaration statement visibility start = (do
      let linkage ← linkage
      let linkageName ← linkageName linkage
      functionRest statement visibility start linkage linkageName) :=
  rfl

def bodyMarks : List TokenKind :=
  [.symbol .braceOpen, .symbol .semicolon]

theorem parses_condition (fits : room ≤ source.budget) {next : Option NodeId → Parser α}
    {body : Language TokenKind} {avoid : Set TokenKind}
    (parses : ∀ condition mid, Parses effect room (next condition) source mid body avoid)
    (opens : Opens body (· ∈ bodyMarks)) :
    Parses effect room (do
        let condition ← if ← eatKeyword .kwWhere then some <$> expression else pure none
        next condition)
      source before (maybe (keyword .kwWhere * Grammar.expression) * body) avoid := by
  rw [maybe, add_mul, one_mul, mul_assoc]
  refine .eat rfl (fun mid _ _ => ?_) (fun _ => ?_)
    (opens.precedes fun kind same => same ▸ by decide)
  · refine .bind ((parses_expression (by omega)).map some) (fun condition mid word _ _ _ _ => ?_)
      (opens.precedes_among (by decide))
    exact (parses condition mid).less (by omega)
  · exact parses none before

/-- The parts of a signature in order, with what comes behind them. -/
theorem parses_functionRest (fits : room ≤ source.budget) {body : Language TokenKind}
    (statement : Parser Unit) (visibility : Visibility) (start : Span) (linkage : Linkage)
    (linkageName : Option NodeId) (opens : Opens body (· ∈ bodyMarks))
    (parses : ∀ name declaration mid,
      Parses nesting room (functionBody statement >>= functionEnd start linkage name declaration)
        source mid body ∅) :
    Parses nesting room (functionRest statement visibility start linkage linkageName) source before
      (signature * body) ∅ := by
  have conditional : Opens (maybe (keyword .kwWhere * Grammar.expression) * body)
      (· ∈ .keyword .kwWhere :: bodyMarks) := opens.maybe_token_mul
  have throwing : Opens (maybe (keyword .kwThrows) *
      (maybe (keyword .kwWhere * Grammar.expression) * body))
      (· ∈ .keyword .kwThrows :: .keyword .kwWhere :: bodyMarks) := by
    rw [← mul_one (keyword .kwThrows)]
    exact conditional.maybe_token_mul
  have typing : Opens (typed * (maybe (keyword .kwThrows) *
      (maybe (keyword .kwWhere * Grammar.expression) * body)))
      (· ∈ .symbol .colon :: .keyword .kwThrows :: .keyword .kwWhere :: bodyMarks) :=
    throwing.maybe_token_mul
  simp only [signature, mul_assoc]
  refine .bind (.eaten rfl) (fun isInline mid word _ _ _ _ => ?_)
    (.mul (.add (.last (by simp)) (.one subset_rfl)) (.mul (.anyOf (by simp)) .nothing))
  refine .bind (.eaten rfl) (fun isOverride mid word _ _ _ _ => ?_)
    (.mul (.anyOf (by simp)) .nothing)
  refine .bind parses_functionKind (fun kind mid word _ _ _ _ => ?_) .nothing
  refine .bind .expectIdentifier (fun name mid word _ _ _ _ => ?_) .nothing
  rw [← mul_assoc (listed _), ← mul_assoc (mark .parenOpen)]
  refine .bind (parses_whileParsing "function" name (parses_formals (by omega)))
    (fun formals mid word _ _ _ _ => ?_) .nothing
  refine .bind parses_returnIntent (fun returnIntent mid word _ _ _ _ => ?_)
    (typing.precedes_among (by decide))
  refine .bind (parses_typed (by omega)) (fun returnType mid word _ _ _ _ => ?_)
    (throwing.precedes_among (by decide))
  refine .bind (.eaten rfl) (fun doesThrow mid word _ _ _ _ => ?_)
    (conditional.precedes fun kind same => same ▸ by decide)
  refine parses_condition (by omega) (fun condition mid => ?_) opens
  refine .idle idle_discardComments fun _ mid _ _ => ?_
  exact (parses name _ mid).less (by omega)

section

variable {start : Span} {linkage : Linkage} {name : Name}
  {declaration : Option (List NodeId) → Node} {nodes : List NodeId}

theorem parses_functionEnd {body : Option (List NodeId)} {avoid : Set TokenKind}
    (allowed : linkage ≠ .external ∨ body = none) :
    Parses nesting room (functionEnd start linkage name declaration body) source before 1 avoid := by
  have quiet : ¬ (linkage = .external && body.isSome) = true := by
    rcases allowed with linked | rfl
    · simp [linked]
    · simp
  rw [functionEnd, if_neg quiet]
  exact .of_idle (idle_add _ start)

theorem parses_report {message : String} {span : Span} :
    Parses nesting room (report ⟨.invalidFunction message, span, none⟩) source before 1 Set.univ where
  ends _ := rfl
  ran outcome after ran := by
    cases ran
    have keeps : before.Nests [] 0 before := .of_keeps (List.forall_mem_nil _) (.refl before)
    exact ⟨[], .nil rfl rfl, ⟨keeps.tell ⟨.invalidFunction message, span, none⟩, fun _ => rfl,
      fun _ _ => rfl⟩, fun _ _ _ _ follows => absurd trivial follows⟩

theorem functionEnd_forbidden_eq (start : Span) (name : Name)
    (declaration : Option (List NodeId) → Node) (nodes : List NodeId) (source : Source)
    (before : State) : ∃ message span, functionEnd start .external name declaration (some nodes) source before =
      (do report ⟨.invalidFunction message, span, none⟩
          add (declaration (some nodes)) start) source before := by
  have looks : lookup name source before = some (.ok (source.names.lookup name), before) := rfl
  have spans : spanFrom start source before =
    some (.ok ⟨start.start, max before.cursor.previousSpan.stop start.stop⟩, before) := rfl
  exact ⟨_, _, (bind_of_ok looks).trans (bind_of_ok spans)⟩

theorem parses_functionEnd_forbidden : Parses nesting room
    (functionEnd start .external name declaration (some nodes)) source before 1 Set.univ := by
  obtain ⟨message, span, same⟩ :=
    functionEnd_forbidden_eq start name declaration nodes source before
  rw [← mul_one (1 : Language TokenKind)]
  exact .congr same (.bind parses_report (fun _ mid word _ _ _ _ => .of_idle (idle_add _ start))
    fun _ _ _ follows => absurd trivial follows)

theorem functionEnd_reports {after : State} {result : Unit}
    (ran : functionEnd start .external name declaration (some nodes) source before =
      some (.ok result, after)) : before.Reports after ∧ ¬ before.IsSilent after := by
  have parses : Parses nesting 0 (functionEnd start .external name declaration (some nodes)) source
    before 1 Set.univ := parses_functionEnd_forbidden
  obtain ⟨word, -, ends, -⟩ := parses.ran _ after ran
  obtain ⟨message, span, same⟩ :=
    functionEnd_forbidden_eq start name declaration nodes source before
  rw [same] at ran
  refine ⟨nesting.reports ends.1, fun silent => ?_⟩
  have told : report ⟨.invalidFunction message, span, none⟩ source before =
    some (.ok (), before.tell source ⟨.invalidFunction message, span, none⟩) := rfl
  rw [bind_of_ok told] at ran
  obtain ⟨_, _, added, -, -, quiet⟩ := idle_add (declaration (some nodes)) start source
    (before.tell source ⟨.invalidFunction message, span, none⟩)
  cases added.symm.trans ran
  cases State.silent_of_tell (List.prefix_refl _) (quiet.symm.trans silent)

end

def signatureMarks : List TokenKind :=
  [.kwInline, .kwOverride, .kwProc, .kwIter].map .keyword

theorem opens_signature : Opens signature (· ∈ signatureMarks) := by
  simp only [signature, mul_assoc]
  exact .maybe_mul (.token rfl) (.maybe_mul (.token rfl) (.mul (.anyOf (by decide))))

section

variable {statement : Parser Unit} {language : Language TokenKind} (fits : room ≤ source.budget)
  (statements : ParsesMembers (room - 1) statement source language)
include fits statements

theorem parses_functionRest_external (visibility : Visibility) (start : Span)
    (linkageName : Option NodeId) :
    Parses nesting room (functionRest statement visibility start .external linkageName) source before
      (signature * mark .semicolon) ∅ :=
  parses_functionRest fits statement visibility start .external linkageName (.token rfl)
    fun _ _ _ => parses_functionBody_forbidden fits statements
      (fun _ => parses_functionEnd (.inr rfl)) (fun _ _ => parses_functionEnd_forbidden)
      fun _ _ _ _ => functionEnd_reports

theorem parses_functionRest_own {linkage : Linkage} (own : linkage ≠ .external)
    (visibility : Visibility) (start : Span) (linkageName : Option NodeId) :
    Parses nesting room (functionRest statement visibility start linkage linkageName) source before
      (signature * (block language + mark .semicolon)) ∅ := by
  have opens : Opens (block language + mark .semicolon) (· ∈ bodyMarks) := by
    rw [block, mul_assoc]
    exact .add (.mul (.token rfl)) (.token rfl)
  exact parses_functionRest fits statement visibility start linkage linkageName opens
    fun _ _ _ => parses_functionBody fits statements (fun _ => parses_functionEnd (.inl own))
      fun _ _ => parses_functionEnd (.inl own)

/-- `[extern|export ["name"]] [inline] [override] proc|iter name(formals) [intent] [: type]
[throws] [where condition] { statements } or ;` -/
theorem parses_functionDeclaration (visibility : Visibility) (start : Span) :
    Parses nesting room (functionDeclaration statement visibility start) source before
      (functionDecl language) ∅ := by
  have shape : functionDecl language =
      keyword .kwExtern * (maybe (valued .string) * (signature * mark .semicolon)) +
        (keyword .kwExport * (maybe (valued .string) *
          (signature * (block language + mark .semicolon))) +
        signature * (block language + mark .semicolon)) := by
    simp only [functionDecl, maybe, mul_assoc, add_mul, one_mul]
  have named {body : Language TokenKind} :
      Precedes (signature * body) ∅ (Set.range TokenKind.string) := by
    refine opens_signature.mul.precedes ?_
    rintro _ ⟨content, rfl⟩
    simp [signatureMarks]
  have apart {body : Language TokenKind} {kind : TokenKind} (other : kind ∉ signatureMarks) :
      Precedes (signature * body) ∅ {kind} :=
    opens_signature.mul.precedes fun _ same => same ▸ decide_eq_false other
  have exported : Linkage.exported ≠ .internal ∧ Linkage.exported ≠ .external := by decide
  have external : Linkage.external ≠ .internal := by decide
  have internal : Linkage.internal ≠ .external := by decide
  rw [shape, functionDeclaration_eq, linkage]
  simp only [bind_assoc]
  refine .eat rfl (fun mid _ _ => ?_) (fun _ => ?_) (.add (.token (by simp)) (apart (by decide)))
  · simp only [if_true, pure_bind]
    refine .bind (parses_linkageName (by omega) external) (fun name mid word _ _ _ _ => ?_) named
    exact parses_functionRest_external (by omega) (statements.less (by omega)) visibility start name
  · simp only [Bool.false_eq_true, if_false, bind_assoc]
    refine .eat rfl (fun mid _ _ => ?_) (fun _ => ?_) (apart (by decide))
    · simp only [if_true, pure_bind]
      refine .bind (parses_linkageName (by omega) exported.1) (fun name mid word _ _ _ _ => ?_) named
      exact parses_functionRest_own (by omega) (statements.less (by omega)) exported.2 visibility start
        name
    · simp only [Bool.false_eq_true, if_false, pure_bind]
      refine .idle idle_linkageName_internal fun name mid _ _ => ?_
      exact parses_functionRest_own fits statements internal visibility start name

end

end Parser

end IncrementalFrontend
