import IncrementalFrontend.Proofs.Parser.Entering

/-!
Lists in braces. What stands before a list tells all about the construct around it. A statement that
comes to no list is read as a whole, whatever the statements in lists are read by.
-/
namespace IncrementalFrontend

namespace Parser

variable {α : Type} {source : Source} {base before inside mid now after : State}

inductive Member where
  | statement
  | element (enumName : Name)

namespace Member

def parser (statement : Parser Unit) : Member → Parser Unit
  | .statement => statement
  | .element name => enumElement name

def list (statement : Parser Unit) (member : Member) : Parser Unit :=
  loop () fun _ => memberRound (member.parser statement)

end Member

/-- A list in braces, told by what stands before it: its members, its opening brace, the construct
around it, and why the list is not allowed there, if it is not. -/
structure BraceList where
  member : Member
  opening : Span
  node : List NodeId → Node
  complaint : Option String
  parts : List NodeId
  members_node : ∀ members, (node members).members = members
  parts_node : ∀ members, (node members).parts = parts
  isOwner_node : ∀ members, (node members).isOwner
  isForbidden_node : ∀ members, (node members).isForbidden = complaint.isSome

namespace BraceList

variable (list : BraceList)

def finish (start : Span) (members : List NodeId) : Parser Unit := do
  match list.complaint with
  | some message => report ⟨.invalidFunction message, ← spanFrom start, none⟩
  | none => pure ()
  add (list.node members) start

def rest (statement : Parser Unit) (start : Span) : Parser Unit := do
  let members ← enclosed (list.member.list statement) list.opening
  list.finish start members

end BraceList

def moduleOpener (visibility : Visibility) : Parser BraceList := do
  let isPrototype ← eatKeyword .kwPrototype
  let _ ← expectKeyword .kwModule
  let name ← expectIdentifier
  let opening ← expectSymbol .braceOpen
  return ⟨.statement, opening.span, .moduleDecl name visibility isPrototype, none, [],
    fun _ => rfl, fun _ => rfl, fun _ => rfl, fun _ => rfl⟩

def enumOpener (visibility : Visibility) : Parser BraceList := do
  let _ ← advance
  let name ← expectIdentifier
  let opening ← expectSymbol .braceOpen
  return ⟨.element name, opening.span, .enumDecl name visibility, none, [],
    fun _ => rfl, fun _ => rfl, fun _ => rfl, fun _ => rfl⟩

def functionHeader (visibility : Visibility) : Parser Function := do
  let linkage ← linkage
  let linkageName ← linkageName linkage
  let isInline ← eatKeyword .kwInline
  let isOverride ← eatKeyword .kwOverride
  let kind ← functionKind
  let name ← expectIdentifier
  let formals ← whileParsing "function" name formals
  let returnIntent ← returnIntent
  let returnType ← afterSymbol .colon typeExpression
  let doesThrow ← eatKeyword .kwThrows
  let condition ← if ← eatKeyword .kwWhere then some <$> expression else pure none
  return ⟨name, visibility, linkage, linkageName, kind, returnIntent, isInline, isOverride, doesThrow,
    formals, returnType, condition, none⟩

def bodyComplaint (names : Interner) (function : Function) : Option String :=
  if function.linkage = .external then
    some ("extern function `" ++ names.lookup function.name ++ "` cannot have a body")
  else none

theorem isForbidden_withBody (names : Interner) (function : Function) (members : List NodeId) :
    (Node.functionDecl { function with body := some members }).isForbidden =
      (bodyComplaint names function).isSome := by
  by_cases external : function.linkage = .external <;>
    simp [Node.isForbidden, bodyComplaint, external]

def BraceList.ofBody (names : Interner) (function : Function) (opening : Span) : BraceList where
  member := .statement
  opening := opening
  node members := .functionDecl { function with body := some members }
  complaint := bodyComplaint names function
  parts := (Node.functionDecl function).parts
  members_node _ := rfl
  parts_node _ := rfl
  isOwner_node _ := rfl
  isForbidden_node := isForbidden_withBody names function

def functionOpener (function : Function) : Parser BraceList := do
  discardComments
  if ← isAt (.symbol .braceOpen) then
    let opening ← advance
    return .ofBody (← read).names function opening.span
  else
    throw (.unexpected "`\x7b`" (← current))

def blockOpener : Parser BraceList := do
  let opening ← advance
  return ⟨.statement, opening.span, .block, none, [],
    fun _ => rfl, fun _ => rfl, fun _ => rfl, fun _ => rfl⟩

structure State.Opens (source : Source) (base : State) (past : Cursor) (list : BraceList)
    (inside : State) : Prop where
  holds : base.Holds source 1 list.parts inside
  walks : past.Walks inside.cursor

/-- How the rest of a statement splits: what stands before a list is read by an opener. Where the
opener comes to no list, the rest is read as that of a statement without one. -/
structure Splits (source : Source) (base : State) (past : Cursor) (parser : Parser Unit → Parser Unit)
    (opener : Parser BraceList) (before : State) : Prop where
  opened : ∀ list inside, opener source before = some (.ok list, inside) →
    base.Opens source past list inside ∧ ∀ statement, parser statement source before =
      list.rest statement base.cursor.current.span source inside
  plain : (∀ list inside, opener source before ≠ some (.ok list, inside)) →
    ∀ statement outcome after, parser statement source before = some (outcome, after) →
      (∀ other, parser other source before = some (outcome, after)) ∧
        past.Walks after.cursor ∧ base.Enters source after

namespace Splits

variable {past : Cursor} {opener : Parser BraceList} {list : BraceList} {passed : Nat}
  {taken : List NodeId} {given : α → List NodeId} {first : Parser α}
  {next : α → Parser Unit → Parser Unit} {nextOpener : α → Parser BraceList}

theorem of_enters {parser : Parser Unit → Parser Unit}
    (never : ∀ list inside, opener source before ≠ some (.ok list, inside))
    (same : ∀ statement other, parser statement source before = parser other source before)
    (enters : ∀ statement outcome after, parser statement source before = some (outcome, after) →
      past.Walks after.cursor ∧ base.Enters source after) :
    Splits source base past parser opener before where
  opened list inside opened := absurd opened (never list inside)
  plain _ statement outcome after ran :=
    ⟨fun other => (same other statement).trans ran, enters statement outcome after ran⟩

theorem congr {parser parser' : Parser Unit → Parser Unit} {opener' : Parser BraceList}
    (splits : Splits source base past parser' opener' mid)
    (same : ∀ statement, parser statement source before = parser' statement source mid)
    (same' : opener source before = opener' source mid) :
    Splits source base past parser opener before where
  opened list inside opened := by
    obtain ⟨opens, rest⟩ := splits.opened list inside (same'.symm.trans opened)
    exact ⟨opens, fun statement => (same statement).trans (rest statement)⟩
  plain never statement outcome after ran := by
    obtain ⟨others, ended⟩ := splits.plain (fun list inside => same' ▸ never list inside)
      statement outcome after ((same statement).symm.trans ran)
    exact ⟨fun other => (same other).trans (others other), ended⟩

theorem bind (failed : ∀ error mid, first source before = some (.error error, mid) →
      past.Walks mid.cursor ∧ base.Drafts source mid)
    (each : ∀ value mid, first source before = some (.ok value, mid) →
      Splits source base past (next value) (nextOpener value) mid) :
    Splits source base past (fun statement => first >>= fun value => next value statement)
      (first >>= nextOpener) before := by
  cases start : first source before with
  | none =>
    refine ⟨fun list inside opened => ?_, fun _ statement outcome after ran => ?_⟩
    · cases (bind_of_none start).symm.trans opened
    · cases (bind_of_none start).symm.trans ran
  | some middle =>
    obtain ⟨error | value, mid⟩ := middle
    · refine ⟨fun list inside opened => ?_, fun _ statement outcome after ran => ?_⟩
      · cases (bind_of_error start).symm.trans opened
      · cases (bind_of_error start).symm.trans ran
        obtain ⟨walks, drafts⟩ := failed error mid start
        exact ⟨fun other => bind_of_error start, walks, .of_drafts drafts⟩
    · obtain ⟨opened, plain⟩ := each value mid start
      constructor
      · intro list inside found
        rw [bind_of_ok start] at found
        obtain ⟨opens, same⟩ := opened list inside found
        exact ⟨opens, fun statement => (bind_of_ok start).trans (same statement)⟩
      · intro never statement outcome after ran
        have never (list : BraceList) (inside : State) :
            nextOpener value source mid ≠ some (.ok list, inside) := fun found =>
          never list inside ((bind_of_ok start).trans found)
        obtain ⟨same, ended⟩ := plain never statement outcome after ((bind_of_ok start).symm.trans ran)
        exact ⟨fun other => (bind_of_ok start).trans (same other), ended⟩

section

variable (holds : base.Holds source passed taken before) (walked : past.Walks before.cursor)
include holds walked

theorem draft (drafts : DraftsFrom source base passed taken first given)
    (each : ∀ value mid, first source before = some (.ok value, mid) →
      base.Holds source passed (given value) mid → past.Walks mid.cursor →
      Splits source base past (next value) (nextOpener value) mid) :
    Splits source base past (fun statement => first >>= fun value => next value statement)
      (first >>= nextOpener) before := by
  refine .bind (fun error mid start => ?_) fun value mid start => ?_
  · obtain ⟨walks, gives⟩ := drafts before _ mid holds start
    exact ⟨walked.trans walks, gives⟩
  · obtain ⟨walks, gives⟩ := drafts before _ mid holds start
    exact each value mid start gives (walked.trans walks)

theorem read (reads : OnlyReads first)
    (each : ∀ value mid, first source before = some (.ok value, mid) →
      base.Holds source passed taken mid → past.Walks mid.cursor →
      Splits source base past (next value) (nextOpener value) mid) :
    Splits source base past (fun statement => first >>= fun value => next value statement)
      (first >>= nextOpener) before :=
  draft holds walked (.of_onlyReads reads taken) each

theorem identifier {next : Name → Parser Unit → Parser Unit} {nextOpener : Name → Parser BraceList}
    (each : ∀ name mid, base.Holds source (passed + 1) taken mid → past.Walks mid.cursor →
      Splits source base past (next name) (nextOpener name) mid) :
    Splits source base past (fun statement => expectIdentifier >>= fun name => next name statement)
      (expectIdentifier >>= nextOpener) before := by
  refine .bind (fun error mid start => ?_) fun value mid start => ?_
  · obtain ⟨walks, gives⟩ := holds.identifier start
    exact ⟨walked.trans walks, gives⟩
  · obtain ⟨walks, gives⟩ := holds.identifier start
    exact each value mid gives (walked.trans walks)

end

theorem ends {parser : Parser Unit → Parser Unit} (opens : base.Opens source past list before)
    (same : ∀ statement, parser statement source before =
      list.rest statement base.cursor.current.span source before) :
    Splits source base past parser (pure list) before where
  opened found inside opened := by
    cases opened
    exact ⟨opens, same⟩
  plain never := absurd rfl (never list before)

end Splits

section

variable {past : Cursor} (holds : base.Holds source 0 [] before) (walked : past.Walks before.cursor)
include holds walked

theorem splits_moduleDeclaration (visibility : Visibility) : Splits source base past
    (fun statement => moduleDeclaration statement visibility base.cursor.current.span)
    (moduleOpener visibility) before := by
  refine .read holds walked (onlyReads_eat _) fun isPrototype s1 _ holds walked => ?_
  refine .read holds walked (onlyReads_expect _) fun _ s2 _ holds walked => ?_
  refine .identifier holds walked fun name s3 holds walked => ?_
  refine .read holds walked (onlyReads_expect _) fun opening s4 _ holds walked => ?_
  exact .ends ⟨holds, walked⟩ fun _ => rfl

theorem splits_enumDeclaration (visibility : Visibility) : Splits source base past
    (fun _ => enumDeclaration visibility base.cursor.current.span) (enumOpener visibility) before := by
  rw [enumDeclaration_eq]
  refine .read holds walked onlyReads_advance fun _ s1 _ holds walked => ?_
  refine .identifier holds walked fun name s2 holds walked => ?_
  refine .read holds walked (onlyReads_expect _) fun opening s3 _ holds walked => ?_
  exact .ends ⟨holds, walked⟩ fun _ => rfl

end

theorem drafts_functionHeader (visibility : Visibility) :
    Drafts (functionHeader visibility) fun function => (Node.functionDecl function).parts := by
  refine fun source base => .read onlyReads_linkage fun linkage => ?_
  refine .bind (drafts_linkageName linkage source base) fun linkageName => ?_
  refine .read (onlyReads_eat _) fun isInline => .read (onlyReads_eat _) fun isOverride => ?_
  refine .read onlyReads_functionKind fun kind => .read onlyReads_expectIdentifier fun name => ?_
  refine .collect (fun source base => (drafts_formals source base).whileParsing "function" name)
    fun formals => ?_
  refine .read onlyReads_returnIntent fun returnIntent => ?_
  refine .collect (drafts_afterSymbol _ drafts_typeExpression) fun returnType => ?_
  refine .read (onlyReads_eat _) fun doesThrow => .read (onlyReads_eat _) fun hasCondition => ?_
  cases hasCondition with
  | true =>
    have valued : Drafts (some <$> expression) Option.toList := fun source base =>
      (drafts_expression source base).map fun _ _ member => member
    exact .collect valued fun condition => .pure fun _ member => member
  | false => exact .pure fun id member => by simpa [Node.parts] using member

def functionBehind (statement : Parser Unit) (start : Span) (function : Function) : Parser Unit := do
  discardComments
  let body ← functionBody statement
  functionEnd start function.linkage function.name
    (fun body => .functionDecl { function with body }) body

theorem functionDeclaration_header (statement : Parser Unit) (visibility : Visibility) (start : Span) :
    functionDeclaration statement visibility start =
      functionHeader visibility >>= functionBehind statement start := by
  simp only [functionDeclaration_eq, functionRest, functionHeader, bind_assoc]
  refine bind_congr fun linkage => bind_congr fun linkageName => bind_congr fun isInline => ?_
  refine bind_congr fun isOverride => bind_congr fun kind => bind_congr fun name => ?_
  refine bind_congr fun formals => bind_congr fun returnIntent => bind_congr fun returnType => ?_
  refine bind_congr fun doesThrow => bind_congr fun hasCondition => ?_
  cases hasCondition <;> simp only [if_true, Bool.false_eq_true, if_false, bind_assoc, pure_bind] <;> rfl

theorem bind_congr_at {α β : Type} {first : Parser α} {next other : α → Parser β}
    (same : ∀ value state, next value source state = other value source state) :
    (first >>= next) source before = (first >>= other) source before := by
  cases start : first source before with
  | none => rw [bind_of_none start, bind_of_none start]
  | some middle =>
    obtain ⟨error | value, mid⟩ := middle
    · rw [bind_of_error start, bind_of_error start]
    · rw [bind_of_ok start, bind_of_ok start, same]

theorem functionEnd_some (function : Function) (members : List NodeId) (start opening : Span) :
    functionEnd start function.linkage function.name
        (fun body => .functionDecl { function with body }) (some members) source before =
      (BraceList.ofBody source.names function opening).finish start members source before := by
  have looks : lookup function.name source before =
      some (.ok (source.names.lookup function.name), before) := rfl
  rw [functionEnd, BraceList.finish, BraceList.ofBody]
  by_cases external : function.linkage = .external
  · simp only [bodyComplaint, external, decide_true, Bool.true_and, Option.isSome_some, if_true]
    rw [bind_of_ok looks]
  · simp only [bodyComplaint, external, decide_false, Bool.false_and, Bool.false_eq_true, if_false]

theorem functionBody_absent {statement : Parser Unit}
    (absent : before.cursor.kind ≠ .symbol .braceOpen) :
    functionBody statement source before =
      if before.cursor.kind = .symbol .semicolon then
        some (.ok none, { before with cursor := before.cursor.advance })
      else some (.error (.unexpected "function body or `;`" before.cursor.current), before) := by
  by_cases ended : before.cursor.kind = .symbol .semicolon
  · rw [functionBody, eatSymbol, bind_of_ok (eat_ok ended), if_pos ended]
    rfl
  · have looks : isAt (.symbol .braceOpen) source before =
        some (.ok (before.cursor.isAt (.symbol .braceOpen)), before) := rfl
    have apart := Bool.eq_false_iff.mpr (Cursor.isAt_iff.not.mpr absent)
    rw [functionBody, eatSymbol, bind_of_ok (eat_absent ended), if_neg ended,
      if_neg Bool.false_ne_true, bind_of_ok looks, apart]
    rfl

section

variable {function : Function} (holds : base.Holds source 0 (Node.functionDecl function).parts before)
include holds

/-- What comes behind the header is one token at least. -/
theorem State.Holds.advanced (inside : before.cursor.kind ≠ .endOfFile) :
    base.Holds source 1 (Node.functionDecl function).parts
      { before with cursor := before.cursor.advance } := by
  have held : base.Holds source 0 (Node.functionDecl function).parts
      { before with cursor := before.cursor.advance } := holds.andDrafts (.of_walks (.advance _) rfl)
  have moved := Cursor.position_advance (Cursor.isAtEnd_eq_false rfl inside)
  have start := holds.moved
  refine ⟨held.drafts, ?_, held.made⟩
  dsimp only
  omega

/-- Where no body follows, a semicolon does, or the statement fails. -/
theorem enters_bodiless {statement : Parser Unit} {outcome : Except ParseError Unit}
    (absent : before.cursor.kind ≠ .symbol .braceOpen)
    (ran : (functionBody statement >>= functionEnd base.cursor.current.span function.linkage
      function.name (fun body => .functionDecl { function with body })) source before =
        some (outcome, after)) : before.cursor.Walks after.cursor ∧ base.Enters source after := by
  have body := @functionBody_absent source before statement absent
  by_cases ended : before.cursor.kind = .symbol .semicolon
  · rw [bind_of_ok (body.trans (if_pos ended))] at ran
    have further := holds.advanced (by simp [ended])
    have bodiless : functionEnd base.cursor.current.span function.linkage function.name
        (fun body => .functionDecl { function with body }) none =
          add (.functionDecl { function with body := none }) base.cursor.current.span := by
      simp [functionEnd]
    rw [bodiless] at ran
    have made (child : Nat)
        (member : child ∈ (Node.functionDecl { function with body := none }).children) :
        base.builder.nodes.size ≤ child ∧ child < before.builder.nodes.size := by
      rcases List.mem_append.mp member with part | nothing
      · exact holds.made child part
      · cases nothing
    obtain ⟨rfl, adds⟩ := add_ran further.drafts.fits further.moved made .nil ran
    exact ⟨adds.cursor ▸ .advance _, .add further adds rfl⟩
  · rw [bind_of_error (body.trans (if_neg ended))] at ran
    cases ran
    exact ⟨.refl _, .of_drafts holds.drafts⟩

end

/-- A statement whose header was read comes to a body or not. The comments that still wait are
forgotten. -/
theorem splits_functionBehind {function : Function}
    (holds : base.Holds source 0 (Node.functionDecl function).parts before) :
    Splits source base before.cursor.clearComments
      (fun statement => functionBehind statement base.cursor.current.span function)
      (functionOpener function) before := by
  let bare : State := { before with cursor := before.cursor.clearComments }
  have held : base.Holds source 0 (Node.functionDecl function).parts bare :=
    holds.andDrafts (.of_builder rfl (Nat.le_refl _) rfl)
  have discards : discardComments source before = some (.ok (), bare) := rfl
  have starts (statement : Parser Unit) :
      functionBehind statement base.cursor.current.span function source before =
        (functionBody statement >>= functionEnd base.cursor.current.span function.linkage
          function.name (fun body => .functionDecl { function with body })) source bare :=
    bind_of_ok discards
  have looks : isAt (.symbol .braceOpen) source bare =
    some (.ok (bare.cursor.isAt (.symbol .braceOpen)), bare) := rfl
  by_cases current : bare.cursor.kind = .symbol .braceOpen
  · let list : BraceList := .ofBody source.names function bare.cursor.current.span
    let inside : State := { bare with cursor := bare.cursor.advance }
    have comes : functionOpener function source before = some (.ok list, inside) := by
      rw [functionOpener, bind_of_ok discards, bind_of_ok looks, Cursor.isAt_iff.mpr current]
      rfl
    have opens : base.Opens source before.cursor.clearComments list inside :=
      ⟨held.advanced (by simp [current]), .advance _⟩
    refine .congr (.ends opens fun statement => rfl) (fun statement => ?_) comes
    rw [starts, functionBody_eq current]
    exact bind_congr_at fun members state => functionEnd_some function members _ _
  · have fails : functionOpener function source before =
        some (.error (.unexpected "`\x7b`" bare.cursor.current), bare) := by
      have apart := Bool.eq_false_iff.mpr (Cursor.isAt_iff.not.mpr current)
      rw [functionOpener, bind_of_ok discards, bind_of_ok looks, apart]
      rfl
    have never (list : BraceList) (inside : State) :
        functionOpener function source before ≠ some (.ok list, inside) := by
      rw [fails]
      nofun
    refine .of_enters never (fun statement other => ?_) fun statement outcome after ran => ?_
    · rw [starts, starts]
      exact bind_eq_of_eq _ ((functionBody_absent current).trans (functionBody_absent current).symm)
    · rw [starts] at ran
      exact enters_bodiless held current ran

theorem visibility_apply (source : Source) (before : State) : ∃ visibility mid,
    Parser.visibility source before = some (.ok visibility, mid) ∧
      before.cursor.Walks mid.cursor ∧ mid.builder = before.builder ∧
      (visibility = .unmarked → mid = before) := by
  by_cases isPublic : before.cursor.kind = .keyword .kwPublic
  · refine ⟨.publicly, { before with cursor := before.cursor.advance }, ?_, .advance _, rfl, by simp⟩
    rw [Parser.visibility, eatKeyword, bind_of_ok (eat_ok isPublic)]
    rfl
  · by_cases isPrivate : before.cursor.kind = .keyword .kwPrivate
    · refine ⟨.privately, { before with cursor := before.cursor.advance }, ?_, .advance _, rfl, by simp⟩
      rw [Parser.visibility, eatKeyword, bind_of_ok (eat_absent isPublic), if_neg Bool.false_ne_true,
        eatKeyword, bind_of_ok (eat_ok isPrivate)]
      rfl
    · refine ⟨.unmarked, before, ?_, .refl _, rfl, fun _ => rfl⟩
      rw [Parser.visibility, eatKeyword, bind_of_ok (eat_absent isPublic), if_neg Bool.false_ne_true,
        eatKeyword, bind_of_ok (eat_absent isPrivate)]
      rfl

def openerBehind (visibility : Visibility) : Parser BraceList := do
  match ← kind with
  | .keyword .kwModule | .keyword .kwPrototype => moduleOpener visibility
  | .keyword .kwEnum => enumOpener visibility
  | .keyword .kwExtern | .keyword .kwExport | .keyword .kwInline | .keyword .kwOverride
  | .keyword .kwProc | .keyword .kwIter => functionHeader visibility >>= functionOpener
  | .symbol .braceOpen =>
    if visibility = .unmarked then blockOpener else throw (.unexpected "declaration" (← current))
  | _ => throw (.unexpected "`\x7b`" (← current))

def opener : Parser BraceList := do
  openerBehind (← visibility)

def headerBehind (visibility : Visibility) : Parser Function := do
  match ← kind with
  | .keyword .kwExtern | .keyword .kwExport | .keyword .kwInline | .keyword .kwOverride
  | .keyword .kwProc | .keyword .kwIter => functionHeader visibility
  | _ => throw (.unexpected "function" (← current))

def header : Parser Function := do
  headerBehind (← visibility)

def State.after? {α : Type} (source : Source) (state : State) (parser : Parser α) : Option State :=
  match parser source state with
  | some (.ok _, after) => some after
  | _ => none

def State.header? (source : Source) (state : State) : Option State :=
  state.after? source header

/-- The cursor behind which no comment of a statement is forgotten, given where its header ends. -/
def State.past (base : State) (header? : Option State) : Cursor :=
  (header?.map (·.cursor.clearComments)).getD base.cursor

theorem splits_functionDeclaration {visibility : Visibility}
    (holds : base.Holds source 0 [] before) (walked : base.cursor.Walks before.cursor) :
    Splits source base (base.past (before.after? source (functionHeader visibility)))
      (fun statement => functionDeclaration statement visibility base.cursor.current.span)
      (functionHeader visibility >>= functionOpener) before := by
  simp only [functionDeclaration_header]
  refine .bind (fun error mid start => ?_) fun function mid start => ?_
  · obtain ⟨walks, gives⟩ := drafts_functionHeader visibility source base before _ mid holds start
    rw [State.after?, start]
    exact ⟨walked.trans walks, gives⟩
  · obtain ⟨-, gives⟩ := drafts_functionHeader visibility source base before _ mid holds start
    rw [State.after?, start]
    exact splits_functionBehind gives

theorem Splits.of_throw {past : Cursor} {opener : Parser BraceList}
    {parser : Parser Unit → Parser Unit} {error : ParseError}
    (holds : base.Holds source 0 [] before) (walked : past.Walks before.cursor)
    (never : ∀ list inside, opener source before ≠ some (.ok list, inside))
    (throws : ∀ statement, parser statement source before = some (.error error, before)) :
    Splits source base past parser opener before := by
  refine .of_enters never (fun statement other => (throws _).trans (throws _).symm) ?_
  intro statement outcome after ran
  cases (throws statement).symm.trans ran
  exact ⟨walked, .of_drafts holds.drafts⟩

/-- A block starts at its brace. -/
theorem splits_blockStatement (current : base.cursor.kind = .symbol .braceOpen) :
    Splits source base base.cursor blockStatement blockOpener base := by
  have further := Cursor.position_advance (Cursor.isAtEnd_eq_false current nofun)
  have holds : base.Holds source 1 [] { base with cursor := base.cursor.advance } :=
    ⟨.of_walks (.advance _) rfl, further.ge, nofun⟩
  refine .bind (fun error mid start => by cases start) fun opening mid start => ?_
  cases start
  exact .ends ⟨holds, .advance _⟩ fun _ => rfl

section

variable {statement : Parser Unit} {start : Span} {visibility : Visibility}

def openerMarks : List TokenKind :=
  moduleMarks ++ enumMarks ++ functionMarks

/-- Where there is no list, there is no opener. -/
theorem openerBehind_error (apart : before.cursor.kind ∉ openerMarks)
    (notBlock : before.cursor.kind = .symbol .braceOpen → visibility ≠ .unmarked) :
    ∃ error, openerBehind visibility source before = some (.error error, before) := by
  have peeks : kind source before = some (.ok before.cursor.kind, before) := rfl
  rw [openerBehind, bind_of_ok peeks]
  generalize before.cursor.kind = kind at apart notBlock
  cases kind with
  | keyword word => cases word <;> first | exact ⟨_, rfl⟩ | exact absurd (by decide) apart
  | symbol mark =>
    cases mark
    case braceOpen =>
      cases visibility
      · exact absurd rfl (notBlock rfl)
      all_goals exact ⟨_, rfl⟩
    all_goals exact ⟨_, rfl⟩
  | _ => exact ⟨_, rfl⟩

theorem after?_headerBehind (apart : before.cursor.kind ∉ functionMarks) :
    before.after? source (headerBehind visibility) = none := by
  have peeks : kind source before = some (.ok before.cursor.kind, before) := rfl
  rw [State.after?, headerBehind, bind_of_ok peeks]
  generalize before.cursor.kind = kind at apart
  cases kind with
  | keyword word => cases word <;> first | rfl | exact absurd (by decide) apart
  | _ => rfl

theorem afterVisibility_marked (plain : before.cursor.kind ∉ declarationMarks)
    (marked : visibility ≠ .unmarked) : afterVisibility statement start visibility source before =
      some (.error (.unexpected "declaration" before.cursor.current), before) := by
  have peeks : kind source before = some (.ok before.cursor.kind, before) := rfl
  rw [afterVisibility, bind_of_ok peeks]
  generalize before.cursor.kind = kind at plain
  cases visibility
  case unmarked => exact absurd rfl marked
  all_goals
    cases kind with
    | keyword word => cases word <;> first | rfl | exact absurd (by decide) plain
    | _ => rfl

def smallStatement : TokenKind → Parser Unit
  | .keyword .kwReturn => returnStatement
  | .symbol .semicolon => do let _ ← advance
  | _ => expressionStatement

theorem afterVisibility_unmarked (plain : before.cursor.kind ∉ declarationMarks)
    (notBlock : before.cursor.kind ≠ .symbol .braceOpen) :
    afterVisibility statement start .unmarked source before =
      smallStatement before.cursor.kind source before := by
  have peeks : kind source before = some (.ok before.cursor.kind, before) := rfl
  rw [afterVisibility, bind_of_ok peeks]
  generalize before.cursor.kind = kind at plain notBlock
  cases kind with
  | keyword word => cases word <;> first | rfl | exact absurd (by decide) plain
  | symbol mark => cases mark <;> first | rfl | exact absurd rfl notBlock
  | _ => rfl

theorem enters_smallStatement {outcome : Except ParseError Unit}
    (ran : smallStatement base.cursor.kind source base = some (outcome, after)) :
    base.cursor.Walks after.cursor ∧ base.Enters source after := by
  by_cases isReturn : base.cursor.kind = .keyword .kwReturn
  · rw [isReturn] at ran
    exact enters_returnStatement (by simp [isReturn]) ran
  · by_cases isEmpty : base.cursor.kind = .symbol .semicolon
    · rw [isEmpty] at ran
      cases ran
      exact ⟨.advance _, .of_drafts (.of_walks (.advance _) rfl)⟩
    · have evaluates : smallStatement base.cursor.kind = expressionStatement := by
        unfold smallStatement
        split <;> first | rfl | contradiction
      rw [evaluates] at ran
      exact entersFrom_expressionStatement base outcome after (.here base) ran

/-- A statement that is no declaration. -/
theorem splits_unmarked (plain : base.cursor.kind ∉ declarationMarks) :
    Splits source base base.cursor
      (fun statement => afterVisibility statement base.cursor.current.span .unmarked)
      (openerBehind .unmarked) base := by
  have peeks : kind source base = some (.ok base.cursor.kind, base) := rfl
  by_cases isBlock : base.cursor.kind = .symbol .braceOpen
  · refine .congr (splits_blockStatement isBlock) (fun statement => ?_) ?_
    · rw [afterVisibility, bind_of_ok peeks, isBlock]
      rfl
    · rw [openerBehind, bind_of_ok peeks, isBlock]
      rfl
  · obtain ⟨error, fails⟩ := @openerBehind_error source base .unmarked
      (fun member => plain (List.mem_append_left _ member)) (absurd · isBlock)
    have never (list : BraceList) (inside : State) :
        openerBehind .unmarked source base ≠ some (.ok list, inside) := by
      rw [fails]
      nofun
    refine .of_enters never (fun statement other => ?_) fun statement outcome after ran => ?_
    · rw [afterVisibility_unmarked plain isBlock, afterVisibility_unmarked plain isBlock]
    · rw [afterVisibility_unmarked plain isBlock] at ran
      exact enters_smallStatement ran

theorem splits_declaration (declares : before.cursor.kind ∈ declarationMarks)
    (holds : base.Holds source 0 [] before) (walked : base.cursor.Walks before.cursor) :
    Splits source base (base.past (before.after? source (headerBehind visibility)))
      (fun statement => afterVisibility statement base.cursor.current.span visibility)
      (openerBehind visibility) before := by
  have peeks : kind source before = some (.ok before.cursor.kind, before) := rfl
  have reads (statement : Parser Unit) : afterVisibility statement base.cursor.current.span visibility
    source before = _ := bind_of_ok peeks
  have opens : openerBehind visibility source before = _ := bind_of_ok peeks
  have header : headerBehind visibility source before = _ := bind_of_ok peeks
  rw [State.after?, header]
  generalize before.cursor.kind = kind at declares reads opens header
  have isModule := splits_moduleDeclaration holds walked visibility
  have isEnum := splits_enumDeclaration holds walked visibility
  have isFunction := @splits_functionDeclaration source base before visibility holds walked
  have isVariable : Splits source base base.cursor
      (fun _ => variableDeclaration visibility base.cursor.current.span)
      (throw (.unexpected "`\x7b`" before.cursor.current)) before := by
    refine .of_enters (fun _ _ => nofun) (fun _ _ => rfl) fun _ outcome after ran => ?_
    obtain ⟨walks, enters⟩ := entersFrom_variableDeclaration visibility before outcome after holds ran
    exact ⟨walked.trans walks, enters⟩
  simp only [declarationMarks, moduleMarks, enumMarks, functionMarks, signatureMarks, variableMarks,
    List.map_cons, List.map_nil, List.cons_append, List.nil_append, List.mem_cons, List.not_mem_nil,
    or_false] at declares
  rcases declares with rfl | rfl | rfl | rfl | rfl | rfl | rfl | rfl | rfl | rfl | rfl | rfl | rfl
  iterate 2 exact .congr isModule reads opens
  · exact .congr isEnum reads opens
  iterate 6 exact .congr isFunction reads opens
  iterate 4 exact .congr isVariable reads opens

end

theorem splits_construct (base : State) :
    Splits source base (base.past (base.header? source)) construct opener base := by
  obtain ⟨visibility, mid, read, walks, same, unmarked⟩ := visibility_apply source base
  have starts : currentSpan source base = some (.ok base.cursor.current.span, base) := rfl
  have holds : base.Holds source 0 [] mid := (State.Holds.here base).andDrafts (.of_walks walks same)
  have header : base.header? source = mid.after? source (headerBehind visibility) := by
    rw [State.header?, State.after?, Parser.header, bind_of_ok read, State.after?]
  have splits : Splits source base (base.past (base.header? source))
      (fun statement => afterVisibility statement base.cursor.current.span visibility)
      (openerBehind visibility) mid := by
    rw [header]
    by_cases declares : mid.cursor.kind ∈ declarationMarks
    · exact splits_declaration declares holds walks
    · have noOpener : mid.cursor.kind ∉ openerMarks := fun member =>
        declares (List.mem_append_left _ member)
      rw [after?_headerBehind fun member => noOpener (List.mem_append_right _ member)]
      by_cases isUnmarked : visibility = .unmarked
      · obtain rfl := unmarked isUnmarked
        subst isUnmarked
        exact splits_unmarked declares
      · obtain ⟨error, fails⟩ := @openerBehind_error source mid visibility noOpener fun _ => isUnmarked
        refine .of_throw holds walks ?_ fun statement => afterVisibility_marked declares isUnmarked
        rw [fails]
        nofun
  refine .congr splits (fun statement => ?_) ?_
  · rw [construct_eq, bind_of_ok starts, bind_of_ok read]
  · rw [opener, bind_of_ok read]

end Parser

end IncrementalFrontend
