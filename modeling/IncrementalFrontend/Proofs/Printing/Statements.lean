import IncrementalFrontend.Proofs.Parser.Containment
import IncrementalFrontend.Proofs.Printing.Headers
import IncrementalFrontend.Proofs.Printing.Uniqueness

/-!
Statements are read as they are written, and so are programs. Comments between statements are taken
before the statement behind them is read, and each list is read up to the token that ends it.
-/
namespace IncrementalFrontend

open Program

namespace Program

def Statement.isComment : Statement → Bool
  | .comment .. => true
  | _ => false

end Program

namespace Parser

variable {α β : Type} {source : Source} {statement : Parser Unit} {rest : List Piece} {builder : Builder}
  {last : β → List Piece → Builder → Prop}

def Adds (source : Source) (parser : Parser Unit) (pieces rest : List Piece)
    (fact : NodeId → SyntaxTree → Prop) : Prop :=
  ∀ builder, Gives source parser (pieces ++ rest) builder fun _ left after =>
    left = rest ∧ ∃ id, builder.Grows [id] after ∧ after.Ensures (fact id)

def AddsAll (source : Source) (parser : Parser Unit) (pieces rest : List Piece)
    (fact : List NodeId → SyntaxTree → Prop) : Prop :=
  ∀ builder, Gives source parser (pieces ++ rest) builder fun _ left after =>
    left = rest ∧ ∃ ids, builder.Grows ids after ∧ after.Ensures (fact ids)

def ReadsStatements (source : Source) (parser : Parser Unit) : Prop :=
  ∀ (written : Statement) (rest : List Piece), written.isComment = false →
    Adds source parser written.pieces rest fun id tree => written.IsAt tree id

def endsFile (kind : TokenKind) : Bool :=
  kind == .endOfFile

def endsList (kind : TokenKind) : Bool :=
  kind == .symbol .braceClose || kind == .endOfFile

def isListEnd : Parser Bool :=
  return (← isAt (.symbol .braceClose)) || (← isAtEnd)

theorem tells_isAtEnd : Tells isAtEnd endsFile :=
  fun _ _ => rfl

theorem tells_isListEnd : Tells isListEnd endsList :=
  fun _ _ => rfl

theorem endsList_of_startsMember {kind : TokenKind} (starts : startsMember kind) :
    endsList kind = false := by
  refine Bool.eq_false_iff.mpr fun ended => ?_
  rcases Bool.or_eq_true_iff.mp ended with same | same <;> cases beq_iff_eq.mp same <;> cases starts

def listStep (isEnd : Parser Bool) (member : Parser Unit) : Parser (Round Unit Unit) := do
  flushComments
  if ← isEnd then
    return .done ()
  member
  return .again ()

theorem memberRound_eq_listStep (member : Parser Unit) :
    memberRound member = listStep isListEnd member := by
  simp only [memberRound, listStep, isListEnd, bind_assoc, pure_bind]

section

variable {isEnd : Parser Bool} {ends : TokenKind → Bool} (tells : Tells isEnd ends) {member : Parser Unit}
  {kind : TokenKind} {count : Nat} {last : Unit → List Piece → Builder → Prop}
include tells

/-- The rounds are over where the list ends. -/
theorem gives_listEnd (ended : ends kind = true) (holds : last () (.token kind :: rest) builder) :
    Gives source (rounds (fun _ => listStep isEnd member) count ()) (.token kind :: rest) builder last := by
  cases count with
  | zero => exact .exhausted
  | succ count =>
    rw [rounds, listStep, bind_assoc]
    refine .flushNone ?_
    rw [bind_assoc]
    refine .test tells ?_
    rw [firstKind_token, ended]
    exact .pure holds

/-- One more round begins with a member where the list does not end. -/
theorem gives_listMember (inside : ends kind = false)
    (gives : ∀ count, Gives source (member >>= rounds (fun _ => listStep isEnd member) count)
      (.token kind :: rest) builder last) :
    Gives source (rounds (fun _ => listStep isEnd member) count ()) (.token kind :: rest) builder last := by
  cases count with
  | zero => exact .exhausted
  | succ count =>
    rw [rounds, listStep, bind_assoc]
    refine .flushNone ?_
    rw [bind_assoc]
    refine .test tells ?_
    rw [firstKind_token, inside]
    simp only [Bool.false_eq_true, if_false, bind_assoc, pure_bind]
    exact gives count

omit tells in
/-- A comment is attached, and the round goes on behind it. -/
theorem gives_listComment {text : Name} {style : CommentStyle}
    (gives : ∀ id after, builder.Grows [id] after →
      after.Ensures (·.node? id = some (.comment text style)) →
      Gives source (rounds (fun _ => listStep isEnd member) count ()) rest after last) :
    Gives source (rounds (fun _ => listStep isEnd member) count ()) (.comment text style :: rest)
      builder last := by
  cases count with
  | zero => exact .exhausted
  | succ count =>
    rw [rounds, listStep, bind_assoc]
    refine .flushOne fun id after grows stored => ?_
    have behind := gives id after grows stored
    rwa [rounds, listStep, bind_assoc] at behind

end

theorem startsMember_of_startsExpression {kind : TokenKind} (starts : startsExpression kind) :
    startsMember kind := by
  unfold startsMember
  split <;> first | cases starts | rfl

/-- A statement begins with a token that begins no comment and ends no list. -/
theorem begins_statement (rest : List Piece) {written : Statement} (plain : written.isComment = false) :
    ∃ kind tail, written.pieces ++ rest = .token kind :: tail ∧ startsMember kind := by
  have declared {body : List Piece} {shown : Visibility} (begins : Begins declarationMarks body) :
      ∃ kind tail, Program.written (visibilityTokens shown) ++ body = .token kind :: tail ∧
        startsMember kind := by
    have whole : Begins (.keyword .kwPublic :: .keyword .kwPrivate :: declarationMarks)
      (Program.written (visibilityTokens shown) ++ body) := begins.visibility
    obtain ⟨kind, member, tail, same⟩ := whole
    exact ⟨kind, tail, same, (by decide : ∀ kind ∈ _, startsMember kind) kind member⟩
  cases written with
  | comment => cases plain
  | moduleDecl visibility isPrototype name members =>
    simp only [Statement.pieces, written_append, List.append_assoc]
    exact declared ((Begins.marked .one).mono (by decide))
  | enumDecl visibility name members =>
    simp only [Statement.pieces, written_append, List.append_assoc]
    exact declared (.token (by decide))
  | functionDecl header isOwn body =>
    simp only [Statement.pieces, Header.tokens, written_append, List.append_assoc]
    exact declared ((begins_function header _).mono (by decide))
  | functionHead header =>
    simp only [Statement.pieces, Header.tokens, written_append, List.append_assoc]
    exact declared ((begins_function header _).mono (by decide))
  | variableDecl visibility kind name type init =>
    simp only [Statement.pieces, written_append, List.append_assoc]
    refine declared (.token ?_)
    cases kind <;> decide
  | result value => cases value <;> exact ⟨_, _, rfl, rfl⟩
  | block members => exact ⟨_, _, rfl, rfl⟩
  | expression value =>
    obtain ⟨kind, tail, same, starts, -⟩ := value.tokens_eq_cons 0
    refine ⟨kind, Program.written (tail ++ [.symbol .semicolon]) ++ rest, ?_,
      startsMember_of_startsExpression starts⟩
    rw [Statement.pieces, same]
    rfl

/-- By induction on the statements that are still to be read. -/
theorem addsAll_statements {isEnd : Parser Bool} {ends : TokenKind → Bool} {closer : TokenKind}
    (tells : Tells isEnd ends) (closes : ends closer = true)
    (goes : ∀ kind, startsMember kind → ends kind = false) (reads : ReadsStatements source statement)
    (members : List Statement) (count : Nat) :
    AddsAll source (rounds (fun _ => listStep isEnd statement) count ())
      (Statement.listPieces members) (.token closer :: rest)
      fun ids tree => Statement.AreAt tree members ids := by
  intro builder
  induction members generalizing count builder with
  | nil => exact gives_listEnd tells closes ⟨rfl, [], .refl builder, fun _ _ => rfl⟩
  | cons written more ih =>
    rw [Statement.listPieces, List.append_assoc]
    cases comment : written.isComment with
    | true =>
      obtain ⟨text, style, rfl⟩ : ∃ text style, written = .comment text style := by
        cases written <;> first | exact ⟨_, _, rfl⟩ | cases comment
      refine gives_listComment fun id after grows stored => (ih count after).mono ?_
      rintro _ left last ⟨rfl, ids, grows', members⟩
      exact ⟨rfl, id :: ids, grows.trans grows', (stored.join grows' members).imp fun tree holds =>
        ⟨id, ids, rfl, holds⟩⟩
    | false =>
      obtain ⟨kind, tail, same, starts⟩ :=
        begins_statement (Statement.listPieces more ++ .token closer :: rest) comment
      rw [same]
      refine gives_listMember tells (goes kind starts) fun count => ?_
      rw [← same]
      refine .bind ((reads written _ comment builder).mono ?_)
      rintro _ left after ⟨rfl, id, grows, first⟩
      refine (ih count after).mono ?_
      rintro _ left last ⟨rfl, ids, grows', members⟩
      exact ⟨rfl, id :: ids, grows.trans grows', (first.join grows' members).imp fun tree holds =>
        ⟨id, ids, rfl, holds⟩⟩

/-- Members in braces are handed over, and the scope around them stays as it is. -/
theorem gives_enclosed {members : Parser Unit} {pieces : List Piece} {opening : Span}
    {fact : List NodeId → SyntaxTree → Prop} {next : List NodeId → Parser β}
    (adds : AddsAll source members pieces (.token (.symbol .braceClose) :: rest) fact)
    (further : ∀ ids after, builder.Grows [] after → after.Ensures (fact ids) →
      Gives source (next ids) rest after last) :
    Gives source (enclosed members opening >>= next)
      (pieces ++ .token (.symbol .braceClose) :: rest) builder last := by
  rw [enclosed]
  simp only [bind_assoc]
  refine .build (.bind ((adds builder.openScope).mono ?_))
  rintro _ left after ⟨rfl, ids, grows, holds⟩
  obtain ⟨handed, closed⟩ := grows.closeScope
  refine .build ?_
  rw [handed, closeBrace, bind_assoc]
  exact .eat TokenKind.noConfusion (further ids _ closed holds.closeScope)

theorem gives_bracedMembers (reads : ReadsStatements source statement) {members : List Statement}
    {opening : Span} {next : List NodeId → Parser β}
    (further : ∀ ids after, builder.Grows [] after → after.Ensures (Statement.AreAt · members ids) →
      Gives source (next ids) rest after last) :
    Gives source (bracedMembers statement opening >>= next)
      (Statement.listPieces members ++ .token (.symbol .braceClose) :: rest) builder last := by
  rw [bracedMembers_eq, memberRound_eq_listStep]
  have goes (kind : TokenKind) (starts : startsMember kind) : endsList kind = false :=
    endsList_of_startsMember starts
  refine gives_enclosed (fun builder => .loop fun count => ?_) further
  exact addsAll_statements tells_isListEnd rfl goes reads members count builder

section

variable (reads : ReadsStatements source statement)
include reads

theorem adds_module (start : Span) (visibility : Visibility) (isPrototype : Bool) (name : Name)
    (members : List Statement) (rest : List Piece) :
    Adds source (moduleDeclaration statement visibility start)
      (written (marked .kwPrototype isPrototype) ++ .token (.keyword .kwModule) ::
        .token (.identifier name) :: .token (.symbol .braceOpen) ::
          (Statement.listPieces members ++ [.token (.symbol .braceClose)])) rest
      fun id tree => (Statement.moduleDecl visibility isPrototype name members).IsAt tree id := by
  intro builder
  simp only [List.append_assoc, List.cons_append, List.nil_append]
  rw [moduleDeclaration]
  refine gives_marked .one (by decide) ?_
  refine .expect TokenKind.noConfusion fun _ => .expectIdentifier ?_
  refine .expect TokenKind.noConfusion fun _ => ?_
  refine gives_bracedMembers reads fun ids mid grows ensures => ?_
  refine .of_bind_pure (.add fun id after grows' stored => .pure ⟨rfl, id, grows.trans grows', ?_⟩)
  exact (ensures.join grows' stored).imp fun tree holds => ⟨ids, holds.2, holds.1⟩

theorem adds_block (members : List Statement) (rest : List Piece) :
    Adds source (blockStatement statement) (Statement.block members).pieces rest
      fun id tree => (Statement.block members).IsAt tree id := by
  intro builder
  simp only [Statement.pieces, List.append_assoc, List.cons_append, List.nil_append]
  refine .advance TokenKind.noConfusion fun _ _ => ?_
  refine gives_bracedMembers reads fun ids mid grows ensures => ?_
  refine .of_bind_pure (.add fun id after grows' stored => .pure ⟨rfl, id, grows.trans grows', ?_⟩)
  exact (ensures.join grows' stored).imp fun tree holds => ⟨ids, holds.2, holds.1⟩

/-- A function with a body. -/
theorem adds_function (start : Span) (header : Header) (isOwn : header.linkage ≠ .external)
    (body : List Statement) (rest : List Piece) :
    Adds source (functionDeclaration statement header.visibility start)
      (written (linkageTokens header.linkage) ++ (written (header.linkageName.toList.map .string) ++
        (written header.signature ++ .token (.symbol .braceOpen) ::
          (Statement.listPieces body ++ [.token (.symbol .braceClose)])))) rest
      fun id tree => (Statement.functionDecl header isOwn body).IsAt tree id := by
  intro builder
  simp only [List.append_assoc, List.cons_append, List.nil_append]
  refine gives_function header (.token (by decide)) fun declared mid bodied grows ensures => ?_
  refine .discardComments ?_
  rw [functionBody, bind_assoc]
  refine .eatNot (by simp) ?_
  simp only [Bool.false_eq_true, if_false, bind_assoc]
  refine .isAt rfl ?_
  simp only [if_true, bind_assoc]
  refine .advance TokenKind.noConfusion fun _ _ => ?_
  refine gives_bracedMembers reads fun ids inner grows' members => ?_
  have own : (header.linkage = .external && (some ids).isSome) = false := by simp [isOwn]
  rw [pure_bind, functionEnd_own own]
  refine .of_bind_pure (.add fun id after grows'' stored => .pure
    ⟨rfl, id, grows.trans (grows'.trans grows''), ?_⟩)
  exact ((ensures (some ids)).join (grows'.trans grows'') (members.join grows'' stored)).imp
    fun tree holds => ⟨declared (some ids), ids, holds.2.2, holds.1, bodied _, holds.2.1⟩

end

/-- A function without a body. -/
theorem adds_functionHead (start : Span) (header : Header) (rest : List Piece) :
    Adds source (functionDeclaration statement header.visibility start)
      (written (linkageTokens header.linkage) ++ (written (header.linkageName.toList.map .string) ++
        (written header.signature ++ [.token (.symbol .semicolon)]))) rest
      fun id tree => (Statement.functionHead header).IsAt tree id := by
  intro builder
  simp only [List.append_assoc, List.cons_append, List.nil_append]
  refine gives_function header (.token (by decide)) fun declared mid bodied grows ensures => ?_
  refine .discardComments ?_
  rw [functionBody, bind_assoc]
  refine .eat TokenKind.noConfusion ?_
  have own : (header.linkage = .external && (none : Option (List NodeId)).isSome) = false :=
    Bool.and_false _
  simp only [if_true, pure_bind, functionEnd_own own]
  refine .of_bind_pure (.add fun id after grows' stored => .pure ⟨rfl, id, grows.trans grows', ?_⟩)
  exact ((ensures none).join grows' stored).imp
    fun tree holds => ⟨declared none, holds.2, holds.1, bodied _⟩

theorem adds_variable (start : Span) (visibility : Visibility) (kind : VariableKind) (name : Name)
    (type init : Option Expression) (rest : List Piece) :
    Adds source (variableDeclaration visibility start)
      (.token (variableKindToken kind) :: .token (.identifier name) ::
        (written (typed type) ++ (written (initialized init) ++ [.token (.symbol .semicolon)]))) rest
      fun id tree => (Statement.variableDecl visibility kind name type init).IsAt tree id := by
  intro builder
  simp only [List.append_assoc, List.cons_append, List.nil_append]
  refine gives_variableKind (.expectIdentifier ?_)
  refine (makes_typed Begins.one.led (by decide) (by decide)).bind fun type first grows typeAt => ?_
  refine (makes_initialized rfl).bind fun init second grows' initAt => ?_
  refine .add fun id after grows'' stored => .expect TokenKind.noConfusion fun _ => .pure
    ⟨rfl, id, grows.trans (grows'.trans grows''), ?_⟩
  exact (typeAt.join (grows'.trans grows'') (initAt.join grows'' stored)).imp fun tree holds =>
    ⟨type, init, holds.2.2, holds.1, holds.2.1⟩

theorem adds_result (value : Option Expression) (rest : List Piece) :
    Adds source returnStatement (Statement.result value).pieces rest
      fun id tree => (Statement.result value).IsAt tree id := by
  intro builder
  cases value with
  | none =>
    refine .advance TokenKind.noConfusion fun _ _ => .isAt rfl ?_
    simp only [if_true, pure_bind]
    refine .add fun id after grows stored => .expect TokenKind.noConfusion fun _ => .pure
      ⟨rfl, id, grows, stored.imp fun tree holds => ⟨none, holds, .none⟩⟩
  | some value =>
    simp only [Statement.pieces, written_cons, written_append, written_nil, List.append_assoc,
      List.cons_append, List.nil_append]
    obtain ⟨kind, tail, same, starts, -⟩ := value.tokens_eq_cons 0
    have absent : firstKind (written (value.tokens 0) ++ .token (.symbol .semicolon) :: rest) ≠
        .symbol .semicolon := by
      rw [same]
      rintro rfl
      cases starts
    refine .advance TokenKind.noConfusion fun _ _ => .isNotAt absent ?_
    simp only [Bool.false_eq_true, if_false, map_eq_pure_bind, bind_assoc, pure_bind]
    refine (reads_expression value _ rfl).bind fun inner mid grows ensures => ?_
    refine .add fun id after grows' stored => .expect TokenKind.noConfusion fun _ => .pure
      ⟨rfl, id, grows.trans grows', ?_⟩
    exact (ensures.join grows' stored).imp fun tree holds => ⟨some inner, holds.2, .some holds.1⟩

theorem adds_expression (value : Expression) (rest : List Piece) :
    Adds source expressionStatement (Statement.expression value).pieces rest
      fun id tree => (Statement.expression value).IsAt tree id := by
  intro builder
  simp only [Statement.pieces, written_append, written_cons, written_nil, List.append_assoc,
    List.cons_append, List.nil_append]
  refine (reads_expression value _ rfl).bind fun id mid grows ensures => .attach ?_
  have attached := mid.grows_attach id
  exact .expect TokenKind.noConfusion fun _ => .pure
    ⟨rfl, id, grows.trans attached, ensures.grows attached⟩

theorem Makes.whileParsing {parser : Parser α} {text : List TokenKind} {fact : α → SyntaxTree → Prop}
    {what : String} {name : Name} (makes : Makes source parser text rest fact) :
    Makes source (whileParsing what name parser) text rest fact :=
  fun builder => .whileParsing (makes builder)

theorem gives_nameWhileParsing {what : String} {name whose : Name} {next : Name → Parser β}
    (further : Gives source (next name) rest builder last) :
    Gives source (whileParsing what whose expectIdentifier >>= next)
      (.token (.identifier name) :: rest) builder last := by
  refine .bind (.whileParsing (.of_bind_pure (.expectIdentifier (.pure ?_))))
  exact further

theorem firstKind_enumComments (rest : List Piece) {members : List EnumMember}
    (comments : members.any EnumMember.isElement = false) (kind : TokenKind) :
    firstKind (enumPieces members ++ .token kind :: rest) = kind := by
  induction members with
  | nil => rfl
  | cons member more ih =>
    obtain ⟨first, others⟩ := Bool.or_eq_false_iff.mp comments
    cases member with
    | comment text style => exact ih others
    | element name init => cases first

/-- The comments behind the last element are taken with it. -/
theorem gives_enumComments {members : List EnumMember} {kind : TokenKind} {next : Unit → Parser β}
    (comments : members.any EnumMember.isElement = false)
    (further : ∀ ids after, builder.Grows ids after →
      after.Ensures (fun tree => List.Forall₂ (EnumMember.IsAt tree) members ids) →
      Gives source (next ()) (.token kind :: rest) after last) :
    Gives source (flushComments >>= next) (enumPieces members ++ .token kind :: rest) builder last := by
  induction members generalizing builder with
  | nil => exact .flushNone (further [] builder (.refl builder) fun _ _ => .nil)
  | cons member more ih =>
    obtain ⟨first, others⟩ := Bool.or_eq_false_iff.mp comments
    cases member with
    | element name init => cases first
    | comment text style =>
      refine .flushOne fun id mid grows stored => ?_
      refine ih others fun ids after grows' members => ?_
      exact further (id :: ids) after (grows.trans grows')
        ((stored.join grows' members).imp fun tree holds => .cons holds.1 holds.2)

/-- An element with the comma behind it, or with the comments behind it if it is the last one. -/
theorem gives_enumElement {enumName name : Name} {init : Option Expression} {more : List EnumMember}
    {next : Unit → Parser β}
    (goes : ∀ id after, builder.Grows [id] after →
      after.Ensures ((EnumMember.element name init).IsAt · id) →
      Gives source (next ()) (enumPieces more ++ .token (.symbol .braceClose) :: rest) after last)
    (ends : ∀ ids after, builder.Grows ids after →
      after.Ensures (fun tree => List.Forall₂ (EnumMember.IsAt tree) (.element name init :: more) ids) →
      Gives source (next ()) (.token (.symbol .braceClose) :: rest) after last) :
    Gives source (enumElement enumName >>= next)
      (enumPieces (.element name init :: more) ++ .token (.symbol .braceClose) :: rest) builder last := by
  simp only [enumPieces, written_cons, written_append, List.cons_append, List.append_assoc, enumElement,
    bind_assoc]
  refine .currentSpan fun start => gives_nameWhileParsing ?_
  cases further : more.any EnumMember.isElement with
  | true =>
    simp only [if_true, written_cons, written_nil, List.cons_append, List.nil_append]
    refine (makes_initialized rfl).whileParsing.bind fun value mid grows valueAt => ?_
    refine .add fun id after grows' stored => .eat TokenKind.noConfusion ?_
    exact goes id after (grows.trans grows')
      ((valueAt.join grows' stored).imp fun tree holds => ⟨value, holds.2, holds.1⟩)
  | false =>
    -- the closing brace is next, but behind comments, so it is not yet the next piece
    have closes := firstKind_enumComments rest further (.symbol .braceClose)
    simp only [Bool.false_eq_true, if_false, written_nil, List.nil_append]
    refine (makes_initialized (by rw [closes]; rfl)).whileParsing.bind fun value mid grows valueAt => ?_
    refine .add fun id inner grows' stored => .eatNot (by rw [closes]; exact nofun) ?_
    simp only [Bool.false_eq_true, if_false, bind_assoc]
    refine gives_enumComments further fun ids after grows'' comments => ?_
    refine .isAt rfl (.test tells_isAtEnd ?_)
    rw [Bool.true_or, if_pos rfl]
    have element := (valueAt.join grows' stored).join grows'' comments
    refine ends (id :: ids) after (grows.trans (grows'.trans grows'')) (element.imp fun tree holds => ?_)
    exact .cons ⟨value, holds.1.2, holds.1.1⟩ holds.2

/-- By induction on the elements and comments that are still to be read. -/
theorem addsAll_elements (enumName : Name) (members : List EnumMember) (count : Nat) :
    AddsAll source (rounds (fun _ => listStep isListEnd (enumElement enumName)) count ())
      (enumPieces members) (.token (.symbol .braceClose) :: rest)
      fun ids tree => List.Forall₂ (EnumMember.IsAt tree) members ids := by
  intro builder
  induction members generalizing count builder with
  | nil => exact gives_listEnd tells_isListEnd rfl ⟨rfl, [], .refl builder, fun _ _ => .nil⟩
  | cons member more ih =>
    cases member with
    | comment text style =>
      refine gives_listComment fun id after grows stored => (ih count after).mono ?_
      rintro _ left last ⟨rfl, ids, grows', members⟩
      exact ⟨rfl, id :: ids, grows.trans grows', (stored.join grows' members).imp fun tree holds =>
        .cons holds.1 holds.2⟩
    | element name init =>
      refine gives_listMember tells_isListEnd rfl fun count => ?_
      refine gives_enumElement (fun id after grows element => (ih count after).mono ?_)
        fun ids after grows members => ?_
      · rintro _ left last ⟨rfl, ids, grows', members⟩
        exact ⟨rfl, id :: ids, grows.trans grows', (element.join grows' members).imp fun tree holds =>
          .cons holds.1 holds.2⟩
      · exact gives_listEnd tells_isListEnd rfl ⟨rfl, ids, grows, members⟩

theorem adds_enum (start : Span) (visibility : Visibility) (name : Name) (members : List EnumMember)
    (rest : List Piece) :
    Adds source (enumDeclaration visibility start)
      (.token (.keyword .kwEnum) :: .token (.identifier name) :: .token (.symbol .braceOpen) ::
        (enumPieces members ++ [.token (.symbol .braceClose)])) rest
      fun id tree => (Statement.enumDecl visibility name members).IsAt tree id := by
  intro builder
  simp only [List.append_assoc, List.cons_append, List.nil_append]
  rw [enumDeclaration_eq]
  refine .advance TokenKind.noConfusion fun _ _ => .expectIdentifier ?_
  refine .expect TokenKind.noConfusion fun _ => ?_
  rw [memberRound_eq_listStep]
  refine gives_enclosed (fun builder => .loop fun count => addsAll_elements name members count builder)
    fun ids mid grows ensures => ?_
  refine .of_bind_pure (.add fun id after grows' stored => .pure ⟨rfl, id, grows.trans grows', ?_⟩)
  exact (ensures.join grows' stored).imp fun tree holds => ⟨ids, holds.2, holds.1⟩

theorem gives_construct {shown : Visibility} {last : Unit → List Piece → Builder → Prop}
    (apart : firstKind rest ≠ .keyword .kwPublic ∧ firstKind rest ≠ .keyword .kwPrivate)
    (further : ∀ start, Gives source (afterVisibility statement start shown) rest builder last) :
    Gives source (construct statement) (written (visibilityTokens shown) ++ rest) builder last := by
  rw [construct_eq]
  exact .currentSpan fun start => gives_visibility apart (further start)

/-- A statement without a visibility is told by its first token. -/
theorem gives_plain {kind : TokenKind} {last : Unit → List Piece → Builder → Prop}
    (plain : startsPlainStatement kind)
    (further : ∀ start, Gives source (afterVisibility statement start .unmarked) (.token kind :: rest)
      builder last) :
    Gives source (construct statement) (.token kind :: rest) builder last := by
  have apart : kind ≠ .keyword .kwPublic ∧ kind ≠ .keyword .kwPrivate := by
    constructor <;> rintro rfl <;> cases plain
  change Gives source _ (written (visibilityTokens .unmarked) ++ .token kind :: rest) _ _
  exact gives_construct apart further

theorem gives_functionMarks {shown : Visibility} {start : Span}
    {last : Unit → List Piece → Builder → Prop} (begins : Begins functionMarks rest)
    (gives : Gives source (functionDeclaration statement shown start) rest builder last) :
    Gives source (afterVisibility statement start shown) rest builder last := by
  obtain ⟨kind, member, tail, rfl⟩ := begins
  refine .peekKind ?_
  simp only [functionMarks, signatureMarks, List.map_cons, List.map_nil, List.mem_cons, List.not_mem_nil,
    or_false] at member
  rcases member with rfl | rfl | rfl | rfl | rfl | rfl <;> exact gives

theorem gives_variableMarks {shown : Visibility} {start : Span} {kind : VariableKind}
    {last : Unit → List Piece → Builder → Prop}
    (gives : Gives source (variableDeclaration shown start) (.token (variableKindToken kind) :: rest)
      builder last) :
    Gives source (afterVisibility statement start shown) (.token (variableKindToken kind) :: rest)
      builder last := by
  refine .peekKind ?_
  cases kind <;> exact gives

theorem startsPlainStatement_of_startsExpression {kind : TokenKind} (starts : startsExpression kind) :
    startsPlainStatement kind := by
  unfold startsPlainStatement
  split <;> first | rfl | exact starts

theorem gives_expressionMarks {kind : TokenKind} {start : Span}
    {last : Unit → List Piece → Builder → Prop} (starts : startsExpression kind)
    (gives : Gives source expressionStatement (.token kind :: rest) builder last) :
    Gives source (afterVisibility statement start .unmarked) (.token kind :: rest) builder last := by
  refine .peekKind ?_
  cases kind with
  | symbol mark => cases mark <;> first | exact gives | cases starts
  | _ => first | exact gives | cases starts

theorem reads_construct (reads : ReadsStatements source statement) :
    ReadsStatements source (construct statement) := by
  intro written rest plain builder
  cases written with
  | comment => cases plain
  | moduleDecl visibility isPrototype name members =>
    simp only [Statement.pieces, written_append, written_cons, written_nil, List.append_assoc,
      List.cons_append, List.nil_append]
    have begins : Begins moduleMarks (Program.written (marked .kwPrototype isPrototype) ++
        .token (.keyword .kwModule) :: .token (.identifier name) :: .token (.symbol .braceOpen) ::
          (Statement.listPieces members ++ .token (.symbol .braceClose) :: rest)) :=
      Begins.one.marked
    refine gives_construct ⟨begins.ne (by decide), begins.ne (by decide)⟩ fun start => .peekKind ?_
    have adds := adds_module reads start visibility isPrototype name members rest builder
    cases isPrototype <;> simpa [marked] using adds
  | enumDecl visibility name members =>
    simp only [Statement.pieces, written_append, written_cons, written_nil, List.append_assoc,
      List.cons_append, List.nil_append]
    refine gives_construct ⟨nofun, nofun⟩ fun start => .peekKind ?_
    simpa using adds_enum start visibility name members rest builder
  | functionDecl header isOwn body =>
    simp only [Statement.pieces, Header.tokens, written_append, written_cons, written_nil,
      List.append_assoc, List.cons_append, List.nil_append]
    have begins := begins_function header (.token (.symbol .braceOpen) ::
      (Statement.listPieces body ++ .token (.symbol .braceClose) :: rest))
    refine gives_construct ⟨begins.ne (by decide), begins.ne (by decide)⟩ fun start => ?_
    refine gives_functionMarks begins ?_
    simpa using adds_function reads start header isOwn body rest builder
  | functionHead header =>
    simp only [Statement.pieces, Header.tokens, written_append, written_cons, written_nil,
      List.append_assoc, List.cons_append, List.nil_append]
    have begins := begins_function header (.token (.symbol .semicolon) :: rest)
    refine gives_construct ⟨begins.ne (by decide), begins.ne (by decide)⟩ fun start => ?_
    refine gives_functionMarks begins ?_
    simpa using adds_functionHead start header rest builder
  | variableDecl visibility kind name type init =>
    simp only [Statement.pieces, written_append, written_cons, written_nil, List.append_assoc,
      List.cons_append, List.nil_append]
    have apart : variableKindToken kind ≠ .keyword .kwPublic ∧
        variableKindToken kind ≠ .keyword .kwPrivate := by
      cases kind <;> exact ⟨nofun, nofun⟩
    refine gives_construct apart fun start => ?_
    refine gives_variableMarks ?_
    simpa using adds_variable start visibility kind name type init rest builder
  | result value =>
    cases value with
    | none => exact gives_plain rfl fun start => .peekKind (adds_result none rest builder)
    | some inner => exact gives_plain rfl fun start => .peekKind (adds_result (some inner) rest builder)
  | block members => exact gives_plain rfl fun start => .peekKind (adds_block reads members rest builder)
  | expression value =>
    obtain ⟨kind, tail, same, starts, -⟩ := value.tokens_eq_cons 0
    have shape : (Statement.expression value).pieces ++ rest =
        .token kind :: (Program.written (tail ++ [.symbol .semicolon]) ++ rest) := by
      rw [Statement.pieces, same]
      rfl
    rw [shape]
    refine gives_plain (startsPlainStatement_of_startsExpression starts) fun start => ?_
    refine gives_expressionMarks starts ?_
    rw [← shape]
    exact adds_expression value rest builder

/-- Statements are read as they are written, to any depth. -/
theorem reads_recovering (depth : Nat) : ReadsStatements source (unroll recoveringStatement depth) := by
  induction depth with
  | zero => exact fun _ _ _ _ => .exhausted
  | succ depth ih =>
    intro written rest plain builder cursor outcome after here ran
    have ran : recoveringStatement (unroll recoveringStatement depth) source ⟨cursor, builder⟩ =
        some (outcome, after) := ran
    rw [recoveringStatement_eq] at ran
    exact (reads_construct ih written rest plain builder).tryCatch cursor outcome after here ran

theorem reads_statement : ReadsStatements source Parser.statement :=
  fun written rest plain builder => .recursive fun depth =>
    reads_recovering depth written rest plain builder

theorem addsAll_program (written : List Statement) :
    AddsAll source program (Statement.listPieces written) [.token .endOfFile]
      fun ids tree => Statement.AreAt tree written ids := by
  have goes (kind : TokenKind) (starts : startsMember kind) : endsFile kind = false :=
    (Bool.or_eq_false_iff.mp (endsList_of_startsMember starts)).2
  intro builder
  rw [program_eq]
  exact .loop fun count => addsAll_statements tells_isAtEnd rfl goes reads_statement written count builder

/-- A text that writes a program is parsed without complaint, and the tree holds that program and no
other. -/
theorem buildTokens_written (written : List Statement) (unit : SourceUnit) (lines : LineIndex)
    (names : Interner) (entries : List TokenEntry)
    (writes : entries.flatMap TokenEntry.pieces = Statement.listPieces written ++ [.token .endOfFile]) :
    let built := buildTokens entries lines names (.ofUnit unit)
    built.diagnostics = #[] ∧
      ∀ other, Statement.AreAt built.tree other built.tree.topLevel ↔ other = written := by
  obtain ⟨last, ran, same⟩ := buildTokens_ran entries lines names (.ofUnit unit)
  have pieces := (Cursor.pieces_ofTokens entries).trans writes
  obtain ⟨_, -, -, ids, grows, holds⟩ :=
    addsAll_program written (.ofUnit unit) (.ofTokens entries) (.ok ()) last pieces ran
  have areAt : Statement.AreAt last.builder.tree written ids :=
    holds last.builder.tree (List.prefix_refl _)
  simp only [same]
  rw [grows.topLevel_tree]
  refine ⟨grows.diagnostics, fun other => ⟨fun otherAt => otherAt.unique areAt, ?_⟩⟩
  rintro rfl
  exact areAt

/-- In a module, behind a comment, a sum that is an operand of a product. -/
theorem buildTokens_written_product :
    let one : Expression := .integer 1
    let product : Expression := .binary .multiply rfl (.binary .add rfl one one) (.unary .negate rfl one)
    let written : List Statement :=
      [.moduleDecl .publicly false .empty [.comment .empty .line, .expression product]]
    let entries := entriesOf [] (Statement.listPieces written ++ [.token .endOfFile])
    let built := buildTokens entries (.ofText "") .blank (.ofUnit ⟨.empty, .empty, .empty⟩)
    entries.flatMap TokenEntry.pieces = Statement.listPieces written ++ [.token .endOfFile] ∧
      built.diagnostics = #[] ∧
        ∀ other, Statement.AreAt built.tree other built.tree.topLevel ↔ other = written := by
  intro one product written entries built
  have writes : entries.flatMap TokenEntry.pieces = Statement.listPieces written ++ [.token .endOfFile] :=
    pieces_entriesOf [] _ _
  let unit : SourceUnit := ⟨.empty, .empty, .empty⟩
  exact ⟨writes, buildTokens_written written unit (.ofText "") .blank entries writes⟩

end Parser

end IncrementalFrontend
