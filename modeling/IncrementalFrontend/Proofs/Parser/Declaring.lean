import IncrementalFrontend.Proofs.Parser.Containment

/-!
A declaration without errors becomes one node. Whatever its form, the parser adds the node to the
innermost list when the declaration is complete, and then stands right behind its last token.
-/
namespace IncrementalFrontend

open Grammar Computability

def Node.isDeclaration : Node → Bool
  | .moduleDecl .. | .enumDecl .. | .functionDecl .. | .variableDecl .. => true
  | _ => false

def Grammar.declared : Language TokenKind :=
  maybe (keywords [.kwPublic, .kwPrivate]) * declaration statement

theorem Grammar.declared_le_statement : declared ≤ statement := by
  rw [← construct_statement]
  exact fun word member => .inl (.inl (.inl (.inl member)))

namespace Parser

variable {α β : Type} {source : Source} {before mid after inside : State} {opening : Span}
  {depth : Nat}

def State.IsBehindToken (state : State) : Prop :=
  ∃ comments, state.cursor.waiting =
    comments ++ (state.cursor.rest.head?.map (·.comments)).getD []

structure State.Declares (before after : State) : Prop where
  added : ∃ (node : Node) (location : Location) (builder : Builder),
    node.isDeclaration ∧ builder.stack = before.builder.stack ∧ after.builder = (builder.add node location).2
  behind : after.IsBehindToken

theorem State.Keeps.stack (keeps : before.Keeps after) :
    after.builder.stack = before.builder.stack := by
  rw [Builder.stack, keeps.scopes, keeps.topLevel, Builder.stack]

def keeping : Effect where
  done before _ after := before.Keeps after
  failed before _ after := before.Keeps after
  quiet _ _ keeps := ⟨keeps, keeps⟩
  trans _ _ first second := first.trans second
  failed_trans _ _ first second := first.trans second
  reports keeps := by
    unfold State.Reports
    rw [keeps.diagnostics]

theorem Parses.keeps {parser : Parser α} {language : Language TokenKind} {avoid : Set TokenKind}
    {result : α} (parses : Parses keeping 0 parser source before language avoid)
    (ran : parser source before = some (.ok result, after)) : before.Keeps after := by
  obtain ⟨_, _, ⟨keeps, -⟩, -⟩ := parses.ran _ after ran
  exact keeps

/-- Steps that keep everything but the cursor, one after the other. -/
theorem keeps_eat {kind : TokenKind} {isEaten : Bool}
    (ran : eat kind source before = some (.ok isEaten, after)) : before.Keeps after := by
  cases (eat_apply kind).symm.trans ran
  exact ⟨rfl, rfl, rfl, rfl⟩

theorem expect_ran {kind : TokenKind} {token : Token}
    (ran : expect kind source before = some (.ok token, after)) :
    before.cursor.kind = kind ∧ after = { before with cursor := before.cursor.advance } := by
  by_cases here : before.cursor.kind = kind
  · cases (expect_ok here).symm.trans ran
    exact ⟨here, rfl⟩
  · obtain ⟨_, failed, -⟩ := @expect_error source before _ here
    cases failed.symm.trans ran

theorem keeps_expect {kind : TokenKind} {token : Token}
    (ran : expect kind source before = some (.ok token, after)) : before.Keeps after := by
  obtain ⟨-, rfl⟩ := expect_ran ran
  exact ⟨rfl, rfl, rfl, rfl⟩

theorem keeps_typed {type : Option NodeId}
    (ran : afterSymbol .colon typeExpression source before = some (.ok type, after)) :
    before.Keeps after :=
  (parses_typed (Nat.zero_le _)).keeps ran

theorem keeps_initialized {init : Option NodeId}
    (ran : afterSymbol .equal expression source before = some (.ok init, after)) :
    before.Keeps after :=
  (parses_initialized (Nat.zero_le _)).keeps ran

theorem keeps_identifier {name : Name}
    (ran : expectIdentifier source before = some (.ok name, after)) : before.Keeps after :=
  Parses.expectIdentifier.keeps ran

theorem State.isBehindToken_advance {builder : Builder} {kind : TokenKind}
    (here : before.cursor.kind = kind) (inside : kind ≠ .endOfFile) :
    State.IsBehindToken ⟨before.cursor.advance, builder⟩ := by
  have notEnd := Cursor.isAtEnd_eq_false here inside
  cases rest : before.cursor.rest with
  | nil => exact ⟨before.cursor.waiting, by simp [Cursor.advance, notEnd, rest]⟩
  | cons entry more => exact ⟨before.cursor.waiting, by simp [Cursor.advance, notEnd, rest]⟩

/-- The node of a declaration is added last. -/
theorem State.Declares.of_add {node : Node} {start : Span} (isDeclaration : node.isDeclaration)
    (stack : mid.builder.stack = before.builder.stack) (behind : mid.IsBehindToken)
    (ran : add node start source mid = some (.ok (), after)) : before.Declares after := by
  obtain ⟨location, added⟩ := add_apply node start source mid
  cases added.symm.trans ran
  exact ⟨⟨node, location, mid.builder, isDeclaration, stack, rfl⟩, behind⟩

theorem silent_add {node : Node} {start : Span}
    (ran : add node start source mid = some (.ok (), after)) : mid.IsSilent after := by
  obtain ⟨_, _, added, -, -, silent⟩ := idle_add node start source mid
  cases added.symm.trans ran
  exact silent

/-- A list in braces that is read without complaint ends behind its closing brace. -/
theorem isBehindToken_of_enclosed {member : Parser Unit} {nodes : List NodeId}
    {language : Language TokenKind} {avoid : Set TokenKind}
    (parses : Parses nesting 0 (loop () fun _ => memberRound member) source inside.openScope
      language avoid)
    (ran : enclosed (loop () fun _ => memberRound member) opening source inside =
      some (.ok nodes, after))
    (silent : inside.IsSilent after) : after.IsBehindToken := by
  obtain ⟨_, -, ⟨⟩⟩ | ⟨mid, first, -, rfl⟩ := enclosed_ran ran
  obtain ⟨word, -, ⟨nests, -⟩, -⟩ := parses.ran _ mid first
  rcases stopsAtBrace _ _ _ _ first with here | ended
  · rw [State.close_of_closed here]
    exact State.isBehindToken_advance here TokenKind.noConfusion
  · rw [State.close_of_ended ended] at silent
    have fewer := (nesting.reports nests).length_le
    have size := congrArg Array.size silent
    simp only [Builder.report, Array.size_push, Builder.diagnostics_closeScope,
      Array.length_toList] at size fewer
    change inside.builder.diagnostics.size ≤ _ at fewer
    omega

section

variable (fits : depth < source.budget)
include fits

/-- The braces of a module or a function. -/
theorem stack_of_bracedMembers {nodes : List NodeId}
    (ran : bracedMembers (unroll recoveringStatement depth) opening source inside =
      some (.ok nodes, after)) :
    after.builder.stack = inside.builder.stack ∧ inside.Reports after ∧
      (inside.IsSilent after → after.IsBehindToken) := by
  obtain ⟨-, closes, restores⟩ := closesBrace_of_bracedMembers fits ran
  refine ⟨restores.stack, ?_, ?_⟩
  · cases found : closingBrace? 0 inside.cursor.kinds with
    | some place =>
      obtain ⟨-, -, new, same, -⟩ := closes.matched place found
      exact ⟨new, same.symm⟩
    | none =>
      obtain ⟨-, new, same⟩ := closes.unmatched found
      exact ⟨_, (same.trans (List.append_assoc ..)).symm⟩
  · rw [bracedMembers_eq] at ran
    have parses := (parses_unrolledMembers fits inside.openScope).less (Nat.zero_le depth)
    exact isBehindToken_of_enclosed parses ran

variable {visibility : Visibility} {start : Span}

theorem declares_moduleDeclaration
    (ran : moduleDeclaration (unroll recoveringStatement depth) visibility start source before =
      some (.ok (), after)) (silent : before.IsSilent after) : before.Declares after := by
  obtain ⟨isPrototype, first, ate, ran⟩ := ok_of_bind ran
  obtain ⟨_, second, expected, ran⟩ := ok_of_bind ran
  obtain ⟨name, third, named, ran⟩ := ok_of_bind ran
  obtain ⟨opening, inside, opened, ran⟩ := ok_of_bind ran
  obtain ⟨members, last, listed, ran⟩ := ok_of_bind ran
  have keeps : before.Keeps inside := (keeps_eat ate).trans <| (keeps_expect expected).trans <|
    (keeps_identifier named).trans (keeps_expect opened)
  obtain ⟨stack, -, behind⟩ := stack_of_bracedMembers fits listed
  refine .of_add rfl (stack.trans keeps.stack) (behind ?_) ran
  exact (silent_add ran).symm.trans (silent.trans keeps.diagnostics.symm)

end

theorem declares_enumDeclaration {visibility : Visibility} {start : Span}
    (ran : enumDeclaration visibility start source before = some (.ok (), after))
    (silent : before.IsSilent after) : before.Declares after := by
  rw [enumDeclaration_eq] at ran
  obtain ⟨_, first, advanced, ran⟩ := ok_of_bind ran
  obtain ⟨name, second, named, ran⟩ := ok_of_bind ran
  obtain ⟨opening, inside, opened, ran⟩ := ok_of_bind ran
  obtain ⟨members, last, listed, ran⟩ := ok_of_bind ran
  have begins : before.Keeps first := by
    cases advanced
    exact ⟨rfl, rfl, rfl, rfl⟩
  have keeps : before.Keeps inside :=
    begins.trans <| (keeps_identifier named).trans (keeps_expect opened)
  have parses := @parses_enumElements 0 source inside.openScope (Nat.zero_le _) name
  obtain ⟨-, restores⟩ := closesBrace_of_enclosed (stopsAtBrace _) parses listed
  refine .of_add rfl (restores.stack.trans keeps.stack) ?_ ran
  exact isBehindToken_of_enclosed parses listed
    ((silent_add ran).symm.trans (silent.trans keeps.diagnostics.symm))

theorem declares_variableDeclaration {visibility : Visibility} {start : Span}
    (ran : variableDeclaration visibility start source before = some (.ok (), after)) :
    before.Declares after := by
  obtain ⟨kind, first, chosen, ran⟩ := ok_of_bind ran
  obtain ⟨name, second, named, ran⟩ := ok_of_bind ran
  obtain ⟨type, third, typed, ran⟩ := ok_of_bind ran
  obtain ⟨init, fourth, initialized, ran⟩ := ok_of_bind ran
  obtain ⟨_, fifth, added, ran⟩ := ok_of_bind ran
  obtain ⟨_, last, expected, ran⟩ := ok_of_bind ran
  cases ran
  have begins : before.Keeps first := by
    obtain ⟨token, mid, advanced, chosen⟩ := ok_of_bind chosen
    cases advanced
    generalize before.cursor.current.kind = kind at chosen
    rcases kind with word | _ | _ | _ | _ | _ | _
    · cases word <;> cases chosen <;> exact ⟨rfl, rfl, rfl, rfl⟩
    all_goals
      cases chosen
      exact ⟨rfl, rfl, rfl, rfl⟩
  have keeps : before.Keeps fourth := begins.trans <| (keeps_identifier named).trans <|
    (keeps_typed typed).trans (keeps_initialized initialized)
  obtain ⟨location, same⟩ :=
    add_apply (.variableDecl name visibility kind type init) start source fourth
  cases same.symm.trans added
  obtain ⟨here, rfl⟩ := expect_ran expected
  exact ⟨⟨_, location, fourth.builder, rfl, keeps.stack, rfl⟩,
    State.isBehindToken_advance here TokenKind.noConfusion⟩

theorem keeps_linkage {linkage : Linkage}
    (ran : Parser.linkage source before = some (.ok linkage, after)) : before.Keeps after := by
  obtain ⟨isExternal, first, ate, ran⟩ := ok_of_bind ran
  cases isExternal with
  | true =>
    cases ran
    exact keeps_eat ate
  | false =>
    obtain ⟨isExported, second, ate', ran⟩ := ok_of_bind ran
    cases isExported <;> cases ran <;> exact (keeps_eat ate).trans (keeps_eat ate')

theorem keeps_linkageName {linkage : Linkage} {name : Option NodeId}
    (ran : linkageName linkage source before = some (.ok name, after)) : before.Keeps after := by
  by_cases linked : linkage = .internal
  · subst linked
    have idle : Idle keeping (linkageName .internal) := idle_linkageName_internal
    obtain ⟨_, _, same, -, keeps, -⟩ := idle source before
    cases same.symm.trans ran
    exact keeps
  · exact (parses_linkageName (Nat.zero_le _) linked).keeps ran

/-- What stands between the linkage of a function and its body attaches nothing. -/
theorem functionRest_ran {statement : Parser Unit} {visibility : Visibility} {start : Span}
    {linkage : Linkage} {linkageName : Option NodeId}
    (ran : functionRest statement visibility start linkage linkageName source before =
      some (.ok (), after)) :
    ∃ name declaration mid, before.Keeps mid ∧ mid.cursor.waiting = [] ∧
      (∀ body, (declaration body).isDeclaration) ∧
      (functionBody statement >>= functionEnd start linkage name declaration) source mid =
        some (.ok (), after) := by
  obtain ⟨isInline, s1, ate1, ran⟩ := ok_of_bind ran
  obtain ⟨isOverride, s2, ate2, ran⟩ := ok_of_bind ran
  obtain ⟨kind, s3, chosen, ran⟩ := ok_of_bind ran
  obtain ⟨name, s4, named, ran⟩ := ok_of_bind ran
  obtain ⟨formals, s5, listed, ran⟩ := ok_of_bind ran
  obtain ⟨returnIntent, s6, intended, ran⟩ := ok_of_bind ran
  obtain ⟨returnType, s7, typed, ran⟩ := ok_of_bind ran
  obtain ⟨doesThrow, s8, ate3, ran⟩ := ok_of_bind ran
  obtain ⟨hasCondition, s9, ate4, ran⟩ := ok_of_bind ran
  have signature : before.Keeps s9 :=
    (keeps_eat ate1).trans <| (keeps_eat ate2).trans <| (parses_functionKind.keeps chosen).trans <|
      (keeps_identifier named).trans <|
      ((parses_whileParsing "function" name (parses_formals (Nat.zero_le _))).keeps listed).trans <|
      (parses_returnIntent.keeps intended).trans <| (keeps_typed typed).trans <|
      (keeps_eat ate3).trans (keeps_eat ate4)
  have ends {condition : Option NodeId} {mid : State} (keeps : s9.Keeps mid)
      (ran : (do
        discardComments
        functionBody statement >>= functionEnd start linkage name (fun body => .functionDecl
          { name, visibility, linkage, linkageName, kind, returnIntent, isInline, isOverride,
            doesThrow, formals, returnType, condition, body })) source mid = some (.ok (), after)) :
      ∃ name declaration mid, before.Keeps mid ∧ mid.cursor.waiting = [] ∧
        (∀ body, Node.isDeclaration (declaration body)) ∧
        (functionBody statement >>= functionEnd start linkage name declaration) source mid =
          some (.ok (), after) := by
    obtain ⟨_, last, discarded, ran⟩ := ok_of_bind ran
    cases discarded
    refine ⟨name, _, _, ?_, ?_, ?_, ran⟩
    · exact (signature.trans keeps).trans ⟨rfl, rfl, rfl, rfl⟩
    · rfl
    · exact fun _ => rfl
  cases hasCondition with
  | true =>
    obtain ⟨condition, s10, read, ran⟩ := ok_of_bind ran
    have parses : Parses keeping 0 expression source s9 Grammar.expression _ :=
      parses_expression (Nat.zero_le _)
    exact ends ((parses.map some).keeps read) ran
  | false =>
    obtain ⟨condition, s10, read, ran⟩ := ok_of_bind ran
    cases read
    exact ends (.refl _) ran

/-- A body that is allowed, or the semicolon in its place, ends a function. -/
theorem declares_of_functionEnd {start : Span} {linkage : Linkage} {name : Name}
    {declaration : Option (List NodeId) → Node} {body : Option (List NodeId)}
    (isDeclaration : ∀ body, (declaration body).isDeclaration)
    (stack : mid.builder.stack = before.builder.stack) (reports : before.Reports mid)
    (behind : before.IsSilent mid → mid.IsBehindToken)
    (ran : functionEnd start linkage name declaration body source mid = some (.ok (), after))
    (silent : before.IsSilent after) : before.Declares after := by
  by_cases forbidden : linkage = .external ∧ body.isSome
  · obtain ⟨rfl, present⟩ := forbidden
    obtain ⟨nodes, rfl⟩ := Option.isSome_iff_exists.mp present
    obtain ⟨further, told⟩ := functionEnd_reports ran
    exact absurd (reports.silent further silent).2 told
  · rw [functionEnd, if_neg (by simpa using forbidden)] at ran
    exact .of_add (isDeclaration body) stack (behind ((silent_add ran).symm.trans silent)) ran

section

variable (fits : depth < source.budget)
include fits

theorem declares_functionDeclaration {visibility : Visibility} {start : Span}
    (ran : functionDeclaration (unroll recoveringStatement depth) visibility start source before =
      some (.ok (), after)) (silent : before.IsSilent after) : before.Declares after := by
  rw [functionDeclaration_eq] at ran
  obtain ⟨linkage, first, linked, ran⟩ := ok_of_bind ran
  obtain ⟨linkageName, second, called, ran⟩ := ok_of_bind ran
  obtain ⟨name, declaration, inside, keeps, taken, isDeclaration, ran⟩ := functionRest_ran ran
  have keeps : before.Keeps inside := ((keeps_linkage linked).trans (keeps_linkageName called)).trans keeps
  have silent : inside.IsSilent after := silent.trans keeps.diagnostics.symm
  have declares : inside.Declares after := by
    obtain ⟨body, mid, read, ran⟩ := ok_of_bind ran
    obtain ⟨isAbsent, third, ate, read⟩ := ok_of_bind read
    cases isAbsent with
    | true =>
      cases read
      have here : inside.cursor.kind = .symbol .semicolon := by
        by_contra absent
        cases (eat_absent absent).symm.trans ate
      cases (eat_ok here).symm.trans ate
      refine declares_of_functionEnd isDeclaration ?_ ?_ ?_ ran silent
      · rfl
      · exact List.prefix_refl _
      · exact fun _ => State.isBehindToken_advance here TokenKind.noConfusion
    | false =>
      obtain ⟨isPresent, fourth, looked, read⟩ := ok_of_bind read
      cases isPresent with
      | true =>
        obtain ⟨opening, fifth, advanced, read⟩ := ok_of_bind read
        obtain ⟨nodes, last, listed, read⟩ := ok_of_bind read
        cases read
        have keeps : inside.Keeps fifth := by
          obtain rfl : third = fourth := (Prod.mk.inj (Option.some.inj looked)).2
          cases advanced
          exact (keeps_eat ate).trans ⟨rfl, rfl, rfl, rfl⟩
        obtain ⟨stack, reports, behind⟩ := stack_of_bracedMembers fits listed
        have reports : inside.Reports mid := by
          rw [State.Reports, ← keeps.diagnostics]
          exact reports
        refine declares_of_functionEnd isDeclaration (stack.trans keeps.stack) reports ?_ ran silent
        exact fun silent => behind (silent.trans keeps.diagnostics.symm)
      | false =>
        obtain ⟨_, _, _, failed⟩ := ok_of_bind read
        cases failed
  obtain ⟨⟨node, location, builder, declared, stack, same⟩, behind⟩ := declares
  exact ⟨⟨node, location, builder, declared, stack.trans keeps.stack, same⟩, behind⟩

theorem declares_afterVisibility {visibility : Visibility} {start : Span}
    (declares : before.cursor.kind ∈ declarationMarks)
    (ran : afterVisibility (unroll recoveringStatement depth) start visibility source before =
      some (.ok (), after)) (silent : before.IsSilent after) : before.Declares after := by
  have peeks : kind source before = some (.ok before.cursor.kind, before) := rfl
  rw [afterVisibility, bind_of_ok peeks] at ran
  generalize before.cursor.kind = kind at declares ran
  split at ran
  iterate 2 exact declares_moduleDeclaration fits ran silent
  · exact declares_enumDeclaration ran silent
  iterate 6 exact declares_functionDeclaration fits ran silent
  iterate 4 exact declares_variableDeclaration ran
  · simp_all [declarationMarks, moduleMarks, enumMarks, functionMarks, signatureMarks, variableMarks]

end

/-- Behind the visibility of a declaration, the declaration itself begins. -/
theorem visibility_ran {word rest : List TokenKind} {visibility : Visibility}
    (declares : word ∈ declared) (kinds : before.cursor.kinds = word ++ rest)
    (ran : Parser.visibility source before = some (.ok visibility, after)) :
    before.Keeps after ∧ after.cursor.kind ∈ declarationMarks := by
  obtain ⟨marked, isMarked, own, isOwn, rfl⟩ := Language.mem_mul.mp declares
  obtain ⟨first, more, rfl, starts⟩ := opens_declaration _ own isOwn
  have starts : first ∈ declarationMarks := of_decide_eq_true starts
  rcases isMarked with ⟨kind, member, rfl⟩ | rfl
  · have inside : kind ≠ .endOfFile := by
      rintro rfl
      simp at member
    obtain ⟨here, further⟩ := Cursor.kinds_advance kinds inside
    have second : before.cursor.advance.kind = first := by
      rw [Cursor.kind_eq_first, further]
      rfl
    simp only [List.map, List.mem_cons, List.not_mem_nil, or_false] at member
    rcases member with rfl | rfl
    · rw [Parser.visibility, eatKeyword, bind_of_ok (eat_ok here)] at ran
      cases ran
      exact ⟨⟨rfl, rfl, rfl, rfl⟩, second ▸ starts⟩
    · rw [Parser.visibility, eatKeyword, bind_of_ok (eat_absent (by rw [here]; decide)),
        if_neg Bool.false_ne_true, eatKeyword, bind_of_ok (eat_ok here)] at ran
      cases ran
      exact ⟨⟨rfl, rfl, rfl, rfl⟩, second ▸ starts⟩
  · have here : before.cursor.kind = first := by
      rw [Cursor.kind_eq_first, kinds]
      rfl
    have unmarked (word : Keyword) (other : .keyword word ∉ declarationMarks) :
        before.cursor.kind ≠ .keyword word :=
      fun same => other (same ▸ here ▸ starts)
    rw [Parser.visibility, eatKeyword, bind_of_ok (eat_absent (unmarked _ (by decide))),
      if_neg Bool.false_ne_true, eatKeyword, bind_of_ok (eat_absent (unmarked _ (by decide)))] at ran
    cases ran
    exact ⟨.refl _, here ▸ starts⟩

/-- A declaration without errors is read to its end, whatever follows, and becomes one node. -/
theorem statement_declares {word rest : List TokenKind} (declares : word ∈ declared)
    (kinds : before.cursor.kinds = word ++ rest) (few : before.cursor.kinds.length < source.budget) :
    ∃ after, statement source before = some (.ok (), after) ∧ before.Reads word after ∧
      before.IsSilent after ∧ before.Declares after := by
  obtain ⟨depth, budget⟩ : ∃ depth, source.budget = depth + 1 :=
    Nat.exists_eq_succ_of_ne_zero (by omega)
  have fits : depth + 1 ≤ source.budget := budget.ge
  have parses : Parses nesting (depth + 1) (construct (unroll recoveringStatement depth)) source
      before Grammar.statement ∅ :=
    parses_construct_unroll fits (parsesMembers_unroll depth (Nat.le_of_succ_le fits))
  obtain ⟨⟨outcome, after⟩, ran⟩ := Option.isSome_iff_exists.mp (parses.ends (budget ▸ few))
  obtain ⟨read, reads, -, complete⟩ := parses.ran outcome after ran
  obtain ⟨⟨_, rfl⟩, rfl, silent⟩ :=
    complete word rest (declared_le_statement declares) kinds (Set.notMem_empty _)
  refine ⟨after, ?_, reads, silent, ?_⟩
  · change unroll recoveringStatement source.budget source before = _
    rw [budget]
    exact recoveringStatement_ok ran
  · rw [construct_eq] at ran
    obtain ⟨start, mid, looked, ran⟩ := ok_of_bind ran
    obtain rfl : before = mid := (Prod.mk.inj (Option.some.inj looked)).2
    obtain ⟨visibility, inside, marked, ran⟩ := ok_of_bind ran
    obtain ⟨keeps, starts⟩ := visibility_ran declares kinds marked
    obtain ⟨⟨node, location, builder, isDeclaration, stack, same⟩, behind⟩ :=
      declares_afterVisibility fits starts ran (silent.trans keeps.diagnostics.symm)
    exact ⟨⟨node, location, builder, isDeclaration, stack.trans keeps.stack, same⟩, behind⟩

end Parser

end IncrementalFrontend
