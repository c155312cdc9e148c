import IncrementalFrontend.Diagnostic.Terminal
import IncrementalFrontend.Proofs.Parser.Containment
import IncrementalFrontend.Proofs.Token.Coverage
import IncrementalFrontend.Syntax.Outline

/-!
One text parsed with two interners. The handles that they give may all differ, but no decision rests
on them: the trees are equal but for handles of the same texts, and so is all that is shown of them.
-/
namespace IncrementalFrontend

namespace Interner

def Matches (names names' : Interner) (name name' : Name) : Prop :=
  ∃ text, names.find? text = some name ∧ names'.find? text = some name'

variable {names names' later later' : Interner} {name name' : Name}

theorem Matches.lookup_eq (same : names.Matches names' name name') :
    names.lookup name = names'.lookup name' := by
  obtain ⟨text, found, found'⟩ := same
  rw [lookup_of_find? found, lookup_of_find? found']

theorem Matches.mono (same : names.Matches names' name name') (keeps : names.Keeps later)
    (keeps' : names'.Keeps later') : later.Matches later' name name' := by
  obtain ⟨text, found, found'⟩ := same
  exact ⟨text, keeps _ _ found, keeps' _ _ found'⟩

theorem Matches.isEmpty_eq (same : names.Matches names' name name')
    (first : names.find? "" = some .empty) (first' : names'.find? "" = some .empty) :
    name.isEmpty = name'.isEmpty := by
  obtain ⟨text, found, found'⟩ := same
  have named {names : Interner} {name : Name} (first : names.find? "" = some .empty)
      (found : names.find? text = some name) : name = .empty ↔ text = "" := by
    constructor
    · rintro rfl
      rw [← lookup_of_find? found, lookup_of_find? first]
    · rintro rfl
      exact Option.some.inj (found.symm.trans first)
  simp only [Name.isEmpty, beq_eq_decide, named first found, named first' found']

/-- One interner gives one text one handle. -/
theorem Matches.eq (same : names.Matches names name name') : name = name' := by
  obtain ⟨text, found, found'⟩ := same
  exact Option.some.inj (found.symm.trans found')

theorem matches_intern (names names' : Interner) (text : String) :
    (names.intern text).2.Matches (names'.intern text).2 (names.intern text).1
      (names'.intern text).1 :=
  ⟨text, names.find?_intern text, names'.find?_intern text⟩

end Interner

namespace Likeness

/-- Names are alike that stand for one text, spans if they are equal, and locations if they have the
same positions in files of one name. -/
def byText (names names' : Interner) : Likeness where
  name := names.Matches names'
  span := Eq
  location location location' := names.Matches names' location.path location'.path ∧
    location.first = location'.first ∧ location.last = location'.last
  dummy := rfl
  reach := by
    rintro _ _ _ _ rfl rfl
    rfl

structure Units (like : Likeness) (unit unit' : SourceUnit) : Prop where
  path : like.name unit.path unit'.path
  name : like.name unit.name unit'.name
  parent : like.name unit.parent unit'.parent

structure Trees (like : Likeness) (tree tree' : SyntaxTree) : Prop where
  unit : like.Units tree.unit tree'.unit
  nodes : List.Forall₂ (fun placed placed' => like.Nodes placed.node placed'.node ∧
    like.location placed.location placed'.location) tree.nodes.toList tree'.nodes.toList
  topLevel : tree.topLevel = tree'.topLevel

structure Parses (like : Likeness) (parsed parsed' : ParsedText) : Prop where
  tree : like.Trees parsed.tree parsed'.tree
  diagnostics : List.Forall₂ like.Diagnostics parsed.diagnostics parsed'.diagnostics

theorem Nodes.imp {like other : Likeness} {node node' : Node} (same : like.Nodes node node')
    (weaken : ∀ name name', like.name name name' → other.name name name') :
    other.Nodes node node' := by
  cases same with
  | comment style same => exact .comment style (weaken _ _ same)
  | moduleDecl visibility isPrototype members same =>
    exact .moduleDecl visibility isPrototype members (weaken _ _ same)
  | enumDecl visibility members same => exact .enumDecl visibility members (weaken _ _ same)
  | enumElement init same => exact .enumElement init (weaken _ _ same)
  | functionDecl function same => exact .functionDecl function (weaken _ _ same)
  | formal intent type init same => exact .formal intent type init (weaken _ _ same)
  | variableDecl visibility kind type init same =>
    exact .variableDecl visibility kind type init (weaken _ _ same)
  | identifier same => exact .identifier (weaken _ _ same)
  | string same => exact .string (weaken _ _ same)
  | field receiver same => exact .field receiver (weaken _ _ same)
  | integer value => exact .integer value
  | call callee actuals => exact .call callee actuals
  | operation operator operands => exact .operation operator operands
  | result value => exact .result value
  | block members => exact .block members
  | erroneous => exact .erroneous

/-- Trees are equal that are alike where nothing but equal names and places is. -/
theorem Trees.eq {like : Likeness} {tree tree' : SyntaxTree} (same : like.Trees tree tree')
    (named : ∀ name name', like.name name name' → name = name')
    (located : ∀ placed ∈ tree.nodes, ∀ placed' ∈ tree'.nodes,
      like.location placed.location placed'.location → placed.location = placed'.location) :
    tree = tree' := by
  obtain ⟨⟨path, name, parent⟩, nodes, topLevel⟩ := same
  have units : tree.unit = tree'.unit :=
    SourceUnit.mk.injEq .. ▸ ⟨named _ _ path, named _ _ name, named _ _ parent⟩
  obtain ⟨sizes, each⟩ := List.forall₂_iff_zip.mp nodes
  have placed : tree.nodes = tree'.nodes := by
    refine Array.toList_inj.mp (List.forall₂_eq_eq_eq ▸ List.forall₂_iff_zip.mpr ⟨sizes, ?_⟩)
    rintro ⟨node, location⟩ ⟨node', location'⟩ pair
    obtain ⟨nodes, locations⟩ := each pair
    obtain ⟨member, member'⟩ := List.of_mem_zip pair
    obtain rfl : node = node' := (nodes.imp named).eq_of_contents
    obtain rfl : location = location' :=
      located _ (Array.mem_toList_iff.mp member) _ (Array.mem_toList_iff.mp member') locations
    rfl
  cases tree
  cases tree'
  cases units
  cases placed
  cases topLevel
  rfl

theorem location_eq_of_byText {names : Interner} {location location' : Location}
    (same : (byText names names).location location location') : location = location' := by
  obtain ⟨paths, first, last⟩ := same
  exact Location.mk.injEq .. ▸ ⟨paths.eq, first, last⟩

/-- For one interner, trees with the same texts are equal. -/
theorem Trees.eq_of_byText {names : Interner} {tree tree' : SyntaxTree}
    (same : (byText names names).Trees tree tree') : tree = tree' :=
  same.eq (fun _ _ => Interner.Matches.eq) fun _ _ _ _ => location_eq_of_byText

theorem Diagnostics.eq_of_byText {names : Interner} {diagnostic diagnostic' : Diagnostic}
    (same : (byText names names).Diagnostics diagnostic diagnostic') : diagnostic = diagnostic' := by
  obtain ⟨code, severity, message, notes, location⟩ := same
  exact Diagnostic.mk.injEq .. ▸ ⟨code, severity, message, location_eq_of_byText location, notes⟩

theorem Parses.eq_of_byText {names : Interner} {parsed parsed' : ParsedText}
    (same : (byText names names).Parses parsed parsed') : parsed = parsed' := by
  have told : List.Forall₂ Eq parsed.diagnostics parsed'.diagnostics :=
    same.diagnostics.imp fun _ _ => Diagnostics.eq_of_byText
  rw [List.forall₂_eq_eq_eq] at told
  exact ParsedText.mk.injEq .. ▸ ⟨same.tree.eq_of_byText, told⟩

/-- What is alike stays so when the interners get to know more. -/
theorem Parses.mono {names names' later later' : Interner} {parsed parsed' : ParsedText}
    (same : (byText names names').Parses parsed parsed') (keeps : names.Keeps later)
    (keeps' : names'.Keeps later') : (byText later later').Parses parsed parsed' := by
  have named (name name' : Name) (same : names.Matches names' name name') :
      later.Matches later' name name' := same.mono keeps keeps'
  have located (location location' : Location)
      (same : (byText names names').location location location') :
      (byText later later').location location location' := same.imp_left (named _ _)
  obtain ⟨⟨unit, nodes, topLevel⟩, diagnostics⟩ := same
  refine ⟨⟨⟨named _ _ unit.path, named _ _ unit.name, named _ _ unit.parent⟩, ?_, topLevel⟩, ?_⟩
  · exact nodes.imp fun _ _ same => ⟨same.1.imp named, located _ _ same.2⟩
  · exact diagnostics.imp fun _ _ same =>
      ⟨same.code, same.severity, same.message, same.notes, located _ _ same.location⟩

end Likeness

section Tokens

open Likeness

variable {later later' : Interner}

inductive Likeness.Meanings (like : Likeness) : Lexeme.Meaning → Lexeme.Meaning → Prop where
  | token {kind kind' : TokenKind} (same : like.Kinds kind kind') :
      Meanings like (.token kind) (.token kind')
  | broken (error : LexError.Kind) : Meanings like (.broken error) (.broken error)
  | comment {text text' : Name} (style : CommentStyle) (isClosed : Bool)
      (same : like.name text text') :
      Meanings like (.comment text style isClosed) (.comment text' style isClosed)

theorem Lexeme.renamed_meaning (lexeme : Lexeme) {names names' : Interner}
    (keeps : (lexeme.meaning names).2.Keeps later)
    (keeps' : (lexeme.meaning names').2.Keeps later') :
    (byText later later').Meanings (lexeme.meaning names).1 (lexeme.meaning names').1 := by
  have named (text : String) (keeps : (names.intern text).2.Keeps later)
      (keeps' : (names'.intern text).2.Keeps later') :
      later.Matches later' (names.intern text).1 (names'.intern text).1 :=
    (Interner.matches_intern names names' text).mono keeps keeps'
  unfold meaning at keeps keeps' ⊢
  cases shape : lexeme.shape with
  | word =>
    simp only [shape] at keeps keeps' ⊢
    cases isKeyword : Keyword.ofText? (String.ofList lexeme.text) with
    | some keyword => exact .token (.keyword keyword)
    | none =>
      simp only [isKeyword] at keeps keeps'
      exact .token (.identifier (named _ keeps keeps'))
  | digits =>
    dsimp only
    split
    · exact .token (.integer _)
    · exact .broken _
  | quoted isClosed =>
    simp only [shape] at keeps keeps' ⊢
    cases isClosed with
    | true => exact .token (.string (named _ keeps keeps'))
    | false => exact .broken _
  | symbol mark => exact .token (.symbol mark)
  | lineComment =>
    simp only [shape] at keeps keeps'
    exact .comment .line true (named _ keeps keeps')
  | blockComment isClosed =>
    simp only [shape] at keeps keeps'
    exact .comment .block isClosed (named _ keeps keeps')
  | stray => exact .broken _

structure Likeness.TokenLists (like : Likeness) (tokens tokens' : TokenList) : Prop where
  entries : List.Forall₂ like.Entries tokens.entries tokens'.entries
  errors : tokens.errors = tokens'.errors

/-- The tokens of lexemes do not depend on the handles of their names. -/
theorem TokenList.renamed_ofLexemes (stop : Nat) (lexemes : List Lexeme) {names names' : Interner}
    {waiting waiting' : List Comment}
    (same : List.Forall₂ (byText later later').Comments waiting waiting')
    (keeps : (ofLexemes stop waiting lexemes names).2.Keeps later)
    (keeps' : (ofLexemes stop waiting' lexemes names').2.Keeps later') :
    (byText later later').TokenLists (ofLexemes stop waiting lexemes names).1
      (ofLexemes stop waiting' lexemes names').1 := by
  induction lexemes generalizing waiting waiting' names names' with
  | nil => exact ⟨.cons ⟨⟨.endOfFile, rfl⟩, same⟩ .nil, rfl⟩
  | cons lexeme rest ih =>
    have means (keeps : (lexeme.meaning names).2.Keeps later)
      (keeps' : (lexeme.meaning names').2.Keeps later') := lexeme.renamed_meaning keeps keeps'
    rw [ofLexemes] at keeps ⊢
    rw [ofLexemes] at keeps' ⊢
    generalize lexeme.meaning names = meant at means keeps ⊢
    generalize lexeme.meaning names' = meant' at means keeps' ⊢
    obtain ⟨meaning, names⟩ := meant
    obtain ⟨meaning', names'⟩ := meant'
    have alike : (byText later later').Meanings meaning meaning' := by
      apply means
      · cases meaning <;> exact .trans (keeps_ofLexemes _ _ _ _) keeps
      · cases meaning' <;> exact .trans (keeps_ofLexemes _ _ _ _) keeps'
    cases alike with
    | token kinds =>
      obtain ⟨entries, errors⟩ := ih .nil keeps keeps'
      exact ⟨.cons ⟨⟨kinds, rfl⟩, same⟩ entries, errors⟩
    | broken error =>
      obtain ⟨entries, errors⟩ := ih .nil keeps keeps'
      exact ⟨.cons ⟨⟨.invalid, rfl⟩, same⟩ entries, congrArg (_ :: ·) errors⟩
    | @comment text text' style isClosed named =>
      have more : List.Forall₂ (byText later later').Comments
          (waiting ++ [⟨text, style, lexeme.span⟩]) (waiting' ++ [⟨text', style, lexeme.span⟩]) :=
        List.rel_append same (.cons ⟨named, rfl, rfl⟩ .nil)
      obtain ⟨entries, errors⟩ := ih more keeps keeps'
      exact ⟨entries, congrArg (fun errors => if isClosed then errors else _ :: errors) errors⟩

theorem TokenList.renamed_ofText (text : String) (names names' : Interner) :
    (byText (ofText text names).2 (ofText text names').2).TokenLists (ofText text names).1
      (ofText text names').1 :=
  have same := renamed_ofLexemes _ ((Lexeme.scan 0 text.toList).takeWhile (·.fits)) .nil (.refl _)
    (.refl _)
  ⟨same.entries, congrArg (· ++ _) same.errors⟩

/-- Whether a text lexes does not depend on the names that are known. -/
theorem TokenList.errors_ofText (text : String) (names names' : Interner) :
    (ofText text names).1.errors = (ofText text names').1.errors :=
  (renamed_ofText text names names').errors

end Tokens

theorem Node.shift_zero (node : Node) : node.shift 0 = node := by
  cases node <;> simp [Node.shift, Function.shift]

namespace Parser

def Setting.renamed {names names' : Interner} {unit unit' : SourceUnit}
    (paths : names.Matches names' unit.path unit'.path) (lines : LineIndex)
    (entries : List TokenEntry) (budget budget' : Nat) : Setting where
  like := .byText names names'
  source := ⟨lines, names, budget⟩
  source' := ⟨lines, names', budget'⟩
  unit := unit
  unit' := unit'
  entries := entries
  ahead := 0
  front := .ofUnit unit
  texts := Interner.Matches.lookup_eq
  places := by
    rintro span _ rfl
    exact ⟨paths, rfl, rfl⟩

theorem Setting.cursors_ofTokens (setting : Setting) {entries entries' : List TokenEntry}
    (same : List.Forall₂ setting.like.Entries entries entries') (all : entries = setting.entries)
    (first : setting.ahead = 0) : setting.Cursors (.ofTokens entries) (.ofTokens entries') where
  rest := same
  waiting := by
    cases same with
    | nil => exact .nil
    | cons entry _ => exact entry.comments
  previous := by
    cases same with
    | nil => exact setting.like.dummy
    | cons entry _ => exact entry.token.span
  position := by
    rw [first]
    rfl
  entries := all

/-- Trees that begin with nothing are built alike. -/
theorem Setting.Builders.parses {setting : Setting} {builder builder' : Builder}
    (builders : setting.Builders builder builder') (front : setting.front = .ofUnit setting.unit)
    (units : setting.like.Units setting.unit setting.unit') :
    setting.like.Parses ⟨builder.tree, builder.diagnostics.toList⟩
      ⟨builder'.tree, builder'.diagnostics.toList⟩ := by
  have topLevel := builders.topLevel_tree
  obtain ⟨⟨nodes, same, placed⟩, -, -, ⟨told, same', alike⟩, unit, unit'⟩ := builders
  unfold Setting.shift at topLevel placed
  rw [front] at topLevel same same' placed
  obtain rfl : builder.nodes.toList = nodes := same
  obtain rfl : builder.diagnostics.toList = told := same'
  refine ⟨⟨?_, ?_, ?_⟩, alike⟩
  · show setting.like.Units builder.unit builder'.unit
    rw [unit, unit']
    exact units
  · exact placed.imp fun item item' same => ⟨item'.node.shift_zero ▸ same.node, same.location⟩
  · simpa [Builder.ofUnit] using topLevel

/-- Texts whose tokens are alike are parsed alike. -/
theorem Setting.parses_buildTokens {setting : Setting} {entries entries' : List TokenEntry}
    {builder builder' : Builder} (front : setting.front = .ofUnit setting.unit)
    (units : setting.like.Units setting.unit setting.unit') (first : setting.ahead = 0)
    (all : entries = setting.entries) (budget : setting.source.budget = entries.length + 2)
    (budget' : setting.source'.budget = entries'.length + 2)
    (pairs : List.Forall₂ setting.like.Entries entries entries')
    (builders : setting.Builders builder builder') :
    let built := buildTokens entries setting.source.lines setting.source.names builder
    let built' := buildTokens entries' setting.source'.lines setting.source'.names builder'
    setting.like.Parses ⟨built.tree, built.diagnostics.toList⟩
      ⟨built'.tree, built'.diagnostics.toList⟩ := by
  intro built built'
  obtain ⟨last, ran, same⟩ :=
    buildTokens_ran entries setting.source.lines setting.source.names builder
  obtain ⟨last', ran', same'⟩ :=
    buildTokens_ran entries' setting.source'.lines setting.source'.names builder'
  rw [← budget] at ran
  rw [← budget'] at ran'
  have agree : setting.Agree Eq program program := .loop Eq rfl fun _ _ _ => setting.agree_programRound
  have states := (agree _ _ _ _ _ _ ⟨setting.cursors_ofTokens pairs all first, builders⟩ ran ran').2
  simp only [built, built', same, same']
  exact states.builder.parses front units

end Parser

namespace SourceUnit

variable {names names' : Interner}

/-- A text is parsed alike whatever was interned before. -/
theorem renamed_parse {unit unit' : SourceUnit} (text : String)
    (units : (Likeness.byText names names').Units unit unit') :
    (Likeness.byText (unit.parse text names).2 (unit'.parse text names').2).Parses
      (unit.parse text names).1 (unit'.parse text names').1 := by
  have keeps : names.Keeps (TokenList.ofText text names).2 := TokenList.keeps_ofText _ _
  have keeps' : names'.Keeps (TokenList.ofText text names').2 := TokenList.keeps_ofText _ _
  have tokens : (Likeness.byText (TokenList.ofText text names).2
      (TokenList.ofText text names').2).TokenLists (TokenList.ofText text names).1
        (TokenList.ofText text names').1 :=
    TokenList.renamed_ofText text names names'
  unfold parse
  generalize TokenList.ofText text names = ran at keeps tokens ⊢
  generalize TokenList.ofText text names' = ran' at keeps' tokens ⊢
  obtain ⟨⟨entries, errors⟩, later⟩ := ran
  obtain ⟨⟨entries', _⟩, later'⟩ := ran'
  obtain ⟨pairs, rfl⟩ := tokens
  dsimp only at *
  let lines := LineIndex.ofText text
  have paths : later.Matches later' unit.path unit'.path := units.path.mono keeps keeps'
  have units : (Likeness.byText later later').Units unit unit' :=
    ⟨paths, units.name.mono keeps keeps', units.parent.mono keeps keeps'⟩
  let setting : Parser.Setting :=
    .renamed paths lines entries (entries.length + 2) (entries'.length + 2)
  let start (unit : SourceUnit) : Builder :=
    { Builder.ofUnit unit with diagnostics :=
        (errors.map fun error => error.diagnostic (lines.location unit.path error.span)).toArray }
  have builders : setting.Builders (start unit) (start unit') := by
    refine ⟨⟨[], rfl, .nil⟩, rfl, .nil, ⟨_, rfl, ?_⟩, rfl, rfl⟩
    simp only [start, List.forall₂_map_left_iff, List.forall₂_map_right_iff, List.forall₂_same]
    exact fun error _ => ⟨rfl, rfl, rfl, rfl, setting.places rfl⟩
  exact Parser.Setting.parses_buildTokens rfl units rfl rfl rfl rfl pairs builders

theorem renamed_ofPath {path path' parent parent' : Name}
    (paths : names.Matches names' path path') (parents : names.Matches names' parent parent') :
    (Likeness.byText (ofPath path parent names).2 (ofPath path' parent' names').2).Units
      (ofPath path parent names).1 (ofPath path' parent' names').1 := by
  have keeps : names.Keeps (ofPath path parent names).2 := names.keeps_intern _
  have keeps' : names'.Keeps (ofPath path' parent' names').2 := names'.keeps_intern _
  refine ⟨paths.mono keeps keeps', ?_, parents.mono keeps keeps'⟩
  unfold ofPath
  dsimp only
  rw [paths.lookup_eq]
  exact Interner.matches_intern ..

end SourceUnit

namespace Likeness

variable {names names' : Interner}

theorem Nodes.members_eq {like : Likeness} {node node' : Node} (same : like.Nodes node node') :
    node.members = node'.members := by
  cases same <;> rfl

theorem Nodes.line_eq {node node' : Node} (same : (byText names names').Nodes node node')
    (id : NodeId) (depth : Nat) :
    SyntaxTree.Visit.line names ⟨id, node, depth⟩ = SyntaxTree.Visit.line names' ⟨id, node', depth⟩ := by
  have kinds : node.kindText = node'.kindText := by
    cases same <;> rfl
  have details : node.detail? names = node'.detail? names' := by
    cases same with
    | integer | call | operation | result | block | erroneous => rfl
    | string same => exact congrArg (some ∘ Text.quote) same.lookup_eq
    | field => rfl
    | comment _ same | moduleDecl _ _ _ same | enumDecl _ _ same | enumElement _ same
    | functionDecl _ same | formal _ _ _ same | variableDecl _ _ _ _ same | identifier same =>
      exact congrArg some same.lookup_eq
  unfold SyntaxTree.Visit.line
  rw [kinds, details]

section

variable {tree tree' : SyntaxTree} (same : (byText names names').Trees tree tree')

include same

theorem Trees.symbolPath_eq (first : names.find? "" = some .empty)
    (first' : names'.find? "" = some .empty) :
    tree.unit.symbolPath names = tree'.unit.symbolPath names' := by
  obtain ⟨-, name, parent⟩ := same.unit
  unfold SourceUnit.symbolPath
  rw [parent.isEmpty_eq first first', name.lookup_eq, parent.lookup_eq]

theorem Trees.node?_rel (id : NodeId) :
    Option.Rel (byText names names').Nodes (tree.node? id) (tree'.node? id) := by
  have nodes := same.nodes
  unfold SyntaxTree.node?
  rw [← Array.getElem?_toList, ← Array.getElem?_toList]
  generalize tree.nodes.toList = items at nodes
  generalize tree'.nodes.toList = items' at nodes
  induction nodes generalizing id with
  | nil => exact .none
  | cons first _ ih =>
    cases id with
    | zero => exact .some first.1
    | succ id => exact ih id

theorem Trees.lines_eq (levels depth : Nat) (id : NodeId) :
    (tree.walkFrom levels depth id).map (SyntaxTree.Visit.line names) =
      (tree'.walkFrom levels depth id).map (SyntaxTree.Visit.line names') := by
  induction levels generalizing depth id with
  | zero => rfl
  | succ levels ih =>
    have nodes := same.node?_rel id
    unfold SyntaxTree.walkFrom
    generalize tree.node? id = node at nodes
    generalize tree'.node? id = node' at nodes
    cases nodes with
    | none => rfl
    | some alike =>
      dsimp only
      rw [List.map_cons, List.map_cons, alike.line_eq, alike.members_eq, List.map_flatMap,
        List.map_flatMap]
      simp only [ih]

theorem Trees.outline_eq : tree.outline names = tree'.outline names' := by
  have sizes : tree.nodes.size = tree'.nodes.size := same.nodes.length_eq
  unfold SyntaxTree.outline SyntaxTree.walk
  rw [List.map_flatMap, List.map_flatMap, same.topLevel, sizes]
  simp only [same.lines_eq]

end

open Terminal

theorem Diagnostics.show_eq {diagnostic diagnostic' : Diagnostic} (style : Style)
    (same : (byText names names').Diagnostics diagnostic diagnostic') :
    showDiagnostic style names diagnostic = showDiagnostic style names' diagnostic' := by
  obtain ⟨code, severity, message, notes, paths, first, last⟩ := same
  unfold showDiagnostic showPlace
  rw [code, severity, message, notes, paths.lookup_eq, first]

section

variable {diagnostics diagnostics' : List Diagnostic} {like : Likeness}
  (same : List.Forall₂ like.Diagnostics diagnostics diagnostics')

include same

theorem keepErrors_rel (room : Nat) :
    List.Forall₂ like.Diagnostics (keepErrors room diagnostics) (keepErrors room diagnostics') := by
  induction same generalizing room with
  | nil => exact .nil
  | @cons diagnostic diagnostic' _ _ first others ih =>
    have isError : diagnostic.isError = diagnostic'.isError := by
      rw [Diagnostic.isError, Diagnostic.isError, first.severity]
    unfold keepErrors
    rw [isError]
    split
    · cases room with
      | zero => exact ih 0
      | succ room => exact .cons first (ih room)
    · exact .cons first (ih room)

theorem countP_severity_eq (severity : Severity) :
    diagnostics.countP (·.severity == severity) = diagnostics'.countP (·.severity == severity) := by
  induction same with
  | nil => rfl
  | cons first _ ih => rw [List.countP_cons, List.countP_cons, ih, first.severity]

end

/-- Reports of diagnostics that are alike have the same text. -/
theorem showReport_eq {diagnostics diagnostics' : List Diagnostic} (style : Style)
    (same : List.Forall₂ (byText names names').Diagnostics diagnostics diagnostics') :
    showReport style names diagnostics = showReport style names' diagnostics' := by
  have kept : List.Forall₂ (byText names names').Diagnostics (shown style diagnostics)
      (shown style diagnostics') := by
    unfold shown
    split
    · exact same
    · exact keepErrors_rel same _
  have errors : diagnostics.countP Diagnostic.isError = diagnostics'.countP Diagnostic.isError :=
    countP_severity_eq same .error
  have warnings :
      diagnostics.countP Diagnostic.isWarning = diagnostics'.countP Diagnostic.isWarning :=
    countP_severity_eq same .warning
  have each : (shown style diagnostics).map (showDiagnostic style names) =
      (shown style diagnostics').map (showDiagnostic style names') := by
    refine map_eq_of_forall₂ (fun diagnostic diagnostic' same => ?_) kept
    exact same.show_eq style
  unfold showReport showDiagnostics
  rw [each, errors, warnings]

end Likeness

end IncrementalFrontend
