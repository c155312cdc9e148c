import IncrementalFrontend.Proofs.Token.Tiling

/-!
The tokens and comments of a text cover it: their spans follow one another, and only blank
characters are left out. Every comment reads as the text does, and every invalid token comes with
one error.
-/
namespace IncrementalFrontend

def Interner.Keeps (names later : Interner) : Prop :=
  ∀ text name, names.find? text = some name → later.find? text = some name

namespace Interner

variable {names later last : Interner}

theorem Keeps.refl (names : Interner) : names.Keeps names :=
  fun _ _ found => found

theorem Keeps.trans (first : names.Keeps later) (second : later.Keeps last) : names.Keeps last :=
  fun text name found => second text name (first text name found)

theorem keeps_intern (names : Interner) (text : String) : names.Keeps (names.intern text).2 :=
  fun _ _ found => find?_intern_of_find? found text

theorem Keeps.lookup_intern {text : String} (keeps : (names.intern text).2.Keeps later) :
    later.lookup (names.intern text).1 = text :=
  lookup_of_find? (keeps text _ (names.find?_intern text))

end Interner

namespace Lexeme

theorem keeps_meaning (lexeme : Lexeme) (names : Interner) :
    names.Keeps (lexeme.meaning names).2 := by
  unfold meaning
  split
  · dsimp only
    split
    · exact .refl names
    · exact names.keeps_intern _
  · dsimp only
    split <;> exact .refl names
  all_goals first | exact .refl names | exact names.keeps_intern _

def error? (lexeme : Lexeme) : Option LexError.Kind :=
  match lexeme.shape with
  | .digits => if integerValue lexeme.text < integerBound then none else some .integerOverflow
  | .quoted false => some .unterminatedString
  | .blockComment false => some .unterminatedComment
  | .stray => some .invalidCharacter
  | _ => none

def IsComment (lexeme : Lexeme) : CommentStyle → Prop
  | .line => lexeme.shape = .lineComment
  | .block => ∃ isClosed, lexeme.shape = .blockComment isClosed

inductive Means (lexeme : Lexeme) (later : Interner) : Meaning → Prop where
  | token {kind : TokenKind} (valid : kind ≠ .invalid) (inside : kind ≠ .endOfFile)
      (fine : lexeme.error? = none) : Means lexeme later (.token kind)
  | broken {error : LexError.Kind} (wrong : lexeme.error? = some error)
      (other : error ≠ .unterminatedComment) : Means lexeme later (.broken error)
  | comment {text : Name} {style : CommentStyle} {isClosed : Bool}
      (isComment : lexeme.IsComment style)
      (wrong : lexeme.error? = if isClosed then none else some .unterminatedComment)
      (same : later.lookup text = String.ofList lexeme.text) :
      Means lexeme later (.comment text style isClosed)

theorem means_meaning {lexeme : Lexeme} {names later : Interner}
    (keeps : (lexeme.meaning names).2.Keeps later) :
    lexeme.Means later (lexeme.meaning names).1 := by
  unfold meaning at keeps ⊢
  split at keeps <;> rename_i shape
  · dsimp only at keeps ⊢
    split <;> exact .token nofun nofun (by simp [error?, shape])
  · dsimp only at keeps ⊢
    split <;> rename_i value
    · exact .token nofun nofun (by simp [error?, shape, value])
    · exact .broken (by simp [error?, shape, value]) nofun
  · exact .token nofun nofun (by simp [error?, shape])
  · exact .broken (by simp [error?, shape]) nofun
  · exact .token nofun nofun (by simp [error?, shape])
  · exact .comment shape (by simp [error?, shape]) keeps.lookup_intern
  · rename_i isClosed
    refine .comment ⟨isClosed, shape⟩ ?_ keeps.lookup_intern
    cases isClosed <;> simp [error?, shape]
  · exact .broken (by simp [error?, shape]) nofun

end Lexeme

def TokenEntry.spans (entry : TokenEntry) : List Span :=
  entry.comments.map (·.span) ++ [entry.token.span]

namespace TokenList

def spans (tokens : TokenList) : List Span :=
  (tokens.entries.flatMap TokenEntry.spans).dropLast

def invalidSpans (tokens : TokenList) : List Span :=
  (tokens.entries.filter (·.token.kind = .invalid)).map (·.token.span)

inductive Collects (stop : Nat) (later : Interner) :
    List Comment → List Lexeme → TokenList → Prop where
  | ended (waiting : List Comment) :
      Collects stop later waiting [] ⟨[⟨.endOfFile (.point stop), waiting⟩], []⟩
  | token {waiting : List Comment} {lexeme : Lexeme} {rest : List Lexeme} {tokens : TokenList}
      {kind : TokenKind} (valid : kind ≠ .invalid) (inside : kind ≠ .endOfFile)
      (fine : lexeme.error? = none) (collects : Collects stop later [] rest tokens) :
      Collects stop later waiting (lexeme :: rest)
        ⟨⟨⟨kind, lexeme.span⟩, waiting⟩ :: tokens.entries, tokens.errors⟩
  | broken {waiting : List Comment} {lexeme : Lexeme} {rest : List Lexeme} {tokens : TokenList}
      {error : LexError.Kind} (wrong : lexeme.error? = some error)
      (other : error ≠ .unterminatedComment) (collects : Collects stop later [] rest tokens) :
      Collects stop later waiting (lexeme :: rest)
        ⟨⟨⟨.invalid, lexeme.span⟩, waiting⟩ :: tokens.entries,
          ⟨error, lexeme.span⟩ :: tokens.errors⟩
  | comment {waiting : List Comment} {lexeme : Lexeme} {rest : List Lexeme} {tokens : TokenList}
      {text : Name} {style : CommentStyle} {isClosed : Bool} (isComment : lexeme.IsComment style)
      (wrong : lexeme.error? = if isClosed then none else some .unterminatedComment)
      (same : later.lookup text = String.ofList lexeme.text)
      (collects : Collects stop later (waiting ++ [⟨text, style, lexeme.span⟩]) rest tokens) :
      Collects stop later waiting (lexeme :: rest)
        ⟨tokens.entries, if isClosed then tokens.errors
          else ⟨.unterminatedComment, lexeme.span⟩ :: tokens.errors⟩

theorem keeps_ofLexemes (stop : Nat) (waiting : List Comment) (lexemes : List Lexeme)
    (names : Interner) : names.Keeps (ofLexemes stop waiting lexemes names).2 := by
  induction lexemes generalizing waiting names with
  | nil => exact .refl names
  | cons lexeme rest ih =>
    have first := lexeme.keeps_meaning names
    rw [ofLexemes]
    split <;> rename_i meant <;> rw [meant] at first <;> exact first.trans (ih _ _)

theorem collects_ofLexemes {stop : Nat} {waiting : List Comment} {lexemes : List Lexeme}
    {names later : Interner} (keeps : (ofLexemes stop waiting lexemes names).2.Keeps later) :
    Collects stop later waiting lexemes (ofLexemes stop waiting lexemes names).1 := by
  induction lexemes generalizing waiting names with
  | nil => exact .ended waiting
  | cons lexeme rest ih =>
    have means (keeps : (lexeme.meaning names).2.Keeps later) := Lexeme.means_meaning keeps
    rw [ofLexemes] at keeps ⊢
    split at keeps <;> rename_i meant <;> rw [meant] at means <;>
      have means := means (.trans (keeps_ofLexemes _ _ _ _) keeps)
    · cases means with
      | token valid inside fine => exact .token valid inside fine (ih keeps)
    · cases means with
      | broken wrong other => exact .broken wrong other (ih keeps)
    · cases means with
      | comment isComment wrong same => exact .comment isComment wrong same (ih keeps)

namespace Collects

variable {stop : Nat} {later : Interner} {waiting : List Comment} {lexemes : List Lexeme}
  {tokens : TokenList}

theorem flatMap_spans (collects : Collects stop later waiting lexemes tokens) :
    tokens.entries.flatMap TokenEntry.spans =
      waiting.map (·.span) ++ lexemes.map (·.span) ++ [.point stop] := by
  induction collects with
  | ended => simp [TokenEntry.spans, Token.endOfFile]
  | token _ _ _ _ ih => simp [TokenEntry.spans, ih]
  | broken _ _ _ ih => simp [TokenEntry.spans, ih]
  | comment _ _ _ _ ih => simp [ih]

theorem spans_eq (collects : Collects stop later waiting lexemes tokens) :
    tokens.spans = waiting.map (·.span) ++ lexemes.map (·.span) := by
  rw [spans, collects.flatMap_spans, List.dropLast_concat]

theorem exists_init (collects : Collects stop later waiting lexemes tokens) :
    ∃ init comments, tokens.entries = init ++ [⟨.endOfFile (.point stop), comments⟩] ∧
      ∀ entry ∈ init, entry.token.kind ≠ .endOfFile := by
  induction collects with
  | ended waiting => exact ⟨[], waiting, rfl, by simp⟩
  | token _ inside _ _ ih =>
    obtain ⟨init, comments, same, others⟩ := ih
    exact ⟨_ :: init, comments, by rw [same]; rfl, List.forall_mem_cons.mpr ⟨inside, others⟩⟩
  | broken _ _ _ ih =>
    obtain ⟨init, comments, same, others⟩ := ih
    exact ⟨_ :: init, comments, by rw [same]; rfl, List.forall_mem_cons.mpr ⟨by simp, others⟩⟩
  | comment _ _ _ _ ih => exact ih

/-- Every comment was a lexeme. -/
theorem exists_lexeme (collects : Collects stop later waiting lexemes tokens) {entry : TokenEntry}
    (member : entry ∈ tokens.entries) {comment : Comment} (inside : comment ∈ entry.comments) :
    comment ∈ waiting ∨ ∃ lexeme ∈ lexemes, lexeme.IsComment comment.style ∧
      comment.span = lexeme.span ∧ later.lookup comment.text = String.ofList lexeme.text := by
  induction collects with
  | ended => simp_all
  | token _ _ _ _ ih | broken _ _ _ ih =>
    rcases List.mem_cons.mp member with rfl | member
    · exact .inl inside
    · obtain ⟨lexeme, member, found⟩ := (ih member).resolve_left (by simp)
      exact .inr ⟨lexeme, List.mem_cons_of_mem _ member, found⟩
  | @comment _ lexeme _ _ _ _ _ isComment _ same _ ih =>
    rcases ih member with waits | ⟨lexeme, member, found⟩
    · rcases List.mem_append.mp waits with waits | last
      · exact .inl waits
      · obtain rfl := List.mem_singleton.mp last
        exact .inr ⟨lexeme, List.mem_cons_self, isComment, rfl, same⟩
    · exact .inr ⟨lexeme, List.mem_cons_of_mem _ member, found⟩

/-- What is wrong with a token, in the order of the lexemes. -/
theorem errors_eq (collects : Collects stop later waiting lexemes tokens) :
    tokens.errors = lexemes.filterMap fun lexeme => lexeme.error?.map (⟨·, lexeme.span⟩) := by
  induction collects with
  | ended => rfl
  | token _ _ fine _ ih => simp [fine, ih]
  | broken wrong _ _ ih => simp [wrong, ih]
  | @comment _ _ _ _ _ _ isClosed _ wrong _ _ ih => cases isClosed <;> simp [wrong, ih]

theorem invalidSpans_eq (collects : Collects stop later waiting lexemes tokens) :
    tokens.invalidSpans = (tokens.errors.filter (·.kind ≠ .unterminatedComment)).map (·.span) := by
  induction collects with
  | ended => rfl
  | token valid _ _ _ ih => simpa [invalidSpans, valid] using ih
  | broken _ other _ ih => simpa [invalidSpans, other] using ih
  | @comment _ _ _ _ _ _ isClosed _ _ _ _ ih => cases isClosed <;> simpa [invalidSpans] using ih

/-- Errors other than those of comments are those of the invalid tokens. -/
theorem map_span_of_errors (collects : Collects stop later waiting lexemes tokens)
    {broken unclosed : List LexError} (same : tokens.errors = broken ++ unclosed)
    (others : ∀ error ∈ broken, error.kind ≠ .unterminatedComment)
    (ends : ∀ error ∈ unclosed, error.kind = .unterminatedComment) :
    broken.map (·.span) = tokens.invalidSpans := by
  rw [collects.invalidSpans_eq, same, List.filter_append, List.filter_eq_self.mpr,
    List.filter_eq_nil_iff.mpr, List.append_nil]
  · intro error member
    simp [ends error member]
  · intro error member
    simpa using others error member

end Collects

end TokenList

namespace Lexeme

variable {offset : Nat} {cs back : List Char} {lexeme : Lexeme} {lexemes : List Lexeme}

theorem shape_of_error? (wrong : lexeme.error? = some .unterminatedComment) :
    lexeme.shape = .blockComment false := by
  unfold error? at wrong
  split at wrong <;> simp_all

theorem IsFirst.spells {style : CommentStyle} (first : lexeme.IsFirst back)
    (isComment : lexeme.IsComment style) : style.Spells lexeme.text back := by
  cases style with
  | line => exact first.spells_line isComment
  | block =>
    obtain ⟨isClosed, shape⟩ := isComment
    exact (first.spells_block shape).1

def lexError? (lexeme : Lexeme) : Option LexError :=
  lexeme.error?.map (⟨·, lexeme.span⟩)

theorem Tiles.eq_nil (tiles : Tiles offset [] lexemes) : lexemes = [] := by
  cases lexemes with
  | nil => rfl
  | cons lexeme rest =>
    obtain ⟨front, back, same, -, -, c, tail, -, text, -⟩ := tiles.exists_place List.mem_cons_self
    simp [text] at same

/-- Only the last lexeme can be a comment without an end, and it goes on to the end. -/
theorem Tiles.errors_split (tiles : Tiles offset cs lexemes) :
    ∃ broken unclosed, lexemes.filterMap lexError? = broken ++ unclosed ∧
      (∀ error ∈ broken, error.kind ≠ .unterminatedComment) ∧ unclosed.length ≤ 1 ∧
      ∀ error ∈ unclosed, error.kind = .unterminatedComment ∧
        ∃ front piece, cs = front ++ piece ∧
          error.span = ⟨offset + byteSize front, offset + byteSize cs⟩ ∧ openComments 0 piece ≠ 0 := by
  induction tiles with
  | blank => exact ⟨[], [], by simp⟩
  | @lexeme offset back more gap lexeme blank start stop first rest ih =>
    by_cases wrong : lexeme.error? = some .unterminatedComment
    · -- nothing is left behind the comment
      obtain ⟨⟨_, _, ends⟩, opened⟩ := first.spells_block (shape_of_error? wrong)
      have opened : openComments 0 lexeme.text ≠ 0 := by simpa using opened
      obtain rfl := ends opened
      obtain rfl := rest.eq_nil
      refine ⟨[], [⟨.unterminatedComment, lexeme.span⟩], by simp [lexError?, wrong], by simp, by simp, ?_⟩
      intro error member
      obtain rfl := List.mem_singleton.mp member
      refine ⟨rfl, gap, lexeme.text, by simp, ?_, opened⟩
      obtain ⟨shape, text, start', stop'⟩ := lexeme
      simp_all [Nat.add_assoc]
    · obtain ⟨broken, unclosed, same, others, few, ends⟩ := ih
      refine ⟨lexeme.lexError?.toList ++ broken, unclosed, ?_, ?_, few, ?_⟩
      · cases found : lexeme.lexError? <;> simp [found, same]
      · intro error member
        rcases List.mem_append.mp member with here | later
        · obtain ⟨kind, known, rfl⟩ := Option.map_eq_some_iff.mp (Option.mem_toList.mp here)
          exact fun unterminated => wrong (unterminated ▸ known)
        · exact others error later
      · intro error member
        obtain ⟨kind, front, piece, rfl, span, opened⟩ := ends error member
        refine ⟨kind, gap ++ lexeme.text ++ front, piece, by simp, ?_, opened⟩
        simp [span, stop, start, Nat.add_assoc]

end Lexeme

/-- Whether a text can be cut at a byte: a character begins there, or the text ends. -/
def IsBoundary (text : String) (offset : Nat) : Prop :=
  ∃ front back, text.toList = front ++ back ∧ offset = Lexeme.byteSize front

theorem IsBoundary.le {text : String} {offset : Nat} (boundary : IsBoundary text offset) :
    offset ≤ text.utf8ByteSize := by
  obtain ⟨front, back, same, rfl⟩ := boundary
  have size := Lexeme.byteSize_toList text
  rw [same, Lexeme.byteSize_append] at size
  omega

theorem Lexeme.Tiles.filled {text : String} {lexemes : List Lexeme}
    (tiles : Lexeme.Tiles 0 text.toList lexemes) {lexeme : Lexeme} (member : lexeme ∈ lexemes) :
    lexeme.span.start < lexeme.span.stop ∧ IsBoundary text lexeme.span.start ∧
      IsBoundary text lexeme.span.stop := by
  obtain ⟨front, back, same, start, stop, c, rest, -, piece, -⟩ := tiles.exists_place member
  rw [Nat.zero_add] at start
  refine ⟨?_, ⟨front, _, same, start⟩, front ++ lexeme.text, back, by simp [same], ?_⟩
  · have : 0 < Lexeme.byteSize lexeme.text := Lexeme.byteSize_pos (by simp [piece])
    omega
  · rw [stop, start, Lexeme.byteSize_append]

/-- What the tokens of a text are to it. Since each token comes with the comments in front of it,
there are as many lists of comments as tokens. -/
structure TokenList.Covers (tokens : TokenList) (text : String) (names : Interner) : Prop where
  filled : ∀ span ∈ tokens.spans,
    span.start < span.stop ∧ IsBoundary text span.start ∧ IsBoundary text span.stop
  ordered : tokens.spans.Pairwise fun earlier later => earlier.stop ≤ later.start
  blank : ∀ front c back, text.toList = front ++ c :: back →
    (∃ span ∈ tokens.spans, span.start ≤ Lexeme.byteSize front ∧
      Lexeme.byteSize (front ++ [c]) ≤ span.stop) ∨ c ∈ [' ', '\t', '\r', '\n', '\x0c']
  ended : ∃ init comments,
    tokens.entries = init ++ [⟨.endOfFile (.point text.utf8ByteSize), comments⟩] ∧
      ∀ entry ∈ init, entry.token.kind ≠ .endOfFile
  comments : ∀ entry ∈ tokens.entries, ∀ comment ∈ entry.comments, ∃ front piece back,
    text.toList = front ++ (piece ++ back) ∧
      comment.span = ⟨Lexeme.byteSize front, Lexeme.byteSize front + Lexeme.byteSize piece⟩ ∧
      names.lookup comment.text = String.ofList piece ∧ comment.style.Spells piece back
  errors : ∃ broken unclosed, tokens.errors = broken ++ unclosed ∧
    broken.map (·.span) = tokens.invalidSpans ∧
    (∀ error ∈ broken, error.kind ≠ .unterminatedComment) ∧ unclosed.length ≤ 1 ∧
    ∀ error ∈ unclosed, error.kind = .unterminatedComment ∧ ∃ front piece,
      text.toList = front ++ piece ∧
        error.span = ⟨Lexeme.byteSize front, text.utf8ByteSize⟩ ∧
        Lexeme.openComments 0 piece ≠ 0

structure TokenList.StandsWithin (tokens : TokenList) (stop : Nat) : Prop where
  filled : ∀ span ∈ tokens.spans, span.start < span.stop ∧ span.stop ≤ stop
  ordered : tokens.spans.Pairwise fun earlier later => earlier.stop ≤ later.start
  ended : ∃ init comments, tokens.entries = init ++ [⟨.endOfFile (.point stop), comments⟩] ∧
    ∀ entry ∈ init, entry.token.kind ≠ .endOfFile
  reported : ∀ span ∈ tokens.invalidSpans, ∃ error ∈ tokens.errors, error.span = span

theorem Span.cutOffset_of_lt {offset : Nat} (short : offset < offsetBound) : cutOffset offset = offset :=
  Nat.min_eq_left (Nat.le_sub_one_of_lt short)

theorem Span.cutOffset_le (offset : Nat) : cutOffset offset ≤ offset :=
  Nat.min_le_left ..

theorem Lexeme.fits_iff {lexeme : Lexeme} (le : lexeme.span.start ≤ lexeme.span.stop) :
    lexeme.fits ↔ lexeme.span.stop < Span.offsetBound := by
  unfold fits Span.ofRange
  split
  · simp only [Except.isOk, Except.toBool, Bool.false_eq_true, false_iff]
    omega
  · split <;> simp only [Except.isOk, Except.toBool, Bool.false_eq_true, false_iff, true_iff] <;> omega

theorem Lexeme.fits_of_short {text : String} (short : text.utf8ByteSize < Span.offsetBound) :
    ∀ lexeme ∈ scan 0 text.toList, lexeme.fits := by
  intro lexeme member
  obtain ⟨less, -, boundary⟩ := (tiles_scan 0 text.toList).filled member
  exact (fits_iff (Nat.le_of_lt less)).mpr (Nat.lt_of_le_of_lt boundary.le short)

namespace TokenList

variable {text : String} {names : Interner}

theorem keeps_ofText (text : String) (names : Interner) : names.Keeps (ofText text names).2 :=
  keeps_ofLexemes _ _ _ _

theorem ofText_of_fits (fits : ∀ lexeme ∈ Lexeme.scan 0 text.toList, lexeme.fits) :
    ofText text names = ofLexemes (Span.cutOffset text.utf8ByteSize) []
      (Lexeme.scan 0 text.toList) names := by
  simp only [ofText, List.takeWhile_eq_self_iff.mpr fits, List.all_eq_true.mpr fits, if_true,
    List.append_nil]

theorem tooLarge_mem_errors (large : ¬ ∀ lexeme ∈ Lexeme.scan 0 text.toList, lexeme.fits) :
    .tooLarge ∈ (ofText text names).1.errors := by
  refine List.mem_append_right _ ?_
  rw [if_neg fun all => large (List.all_eq_true.mp all)]
  exact List.mem_singleton.mpr rfl

theorem fits_of_errors (fine : (ofText text names).1.errors = []) :
    ∀ lexeme ∈ Lexeme.scan 0 text.toList, lexeme.fits := by
  by_contra large
  have member : .tooLarge ∈ (ofText text names).1.errors := tooLarge_mem_errors large
  rw [fine] at member
  cases member

/-- What was read of a text stands up to its end, whether or not the text is too large. -/
theorem standsWithin_ofText (text : String) (names : Interner) :
    (ofText text names).1.StandsWithin (Span.cutOffset text.utf8ByteSize) := by
  have tiles := Lexeme.tiles_scan 0 text.toList
  let lexemes := (Lexeme.scan 0 text.toList).takeWhile (·.fits)
  obtain ⟨read, collects, entries, errors⟩ : ∃ read, Collects (Span.cutOffset text.utf8ByteSize)
      (ofText text names).2 [] lexemes read ∧ (ofText text names).1.entries = read.entries ∧
        ∃ more, (ofText text names).1.errors = read.errors ++ more :=
    ⟨_, collects_ofLexemes (.refl _), rfl, _, rfl⟩
  have spans : (ofText text names).1.spans = lexemes.map (·.span) := by
    rw [TokenList.spans, entries]
    exact collects.spans_eq
  have part : lexemes.Sublist (Lexeme.scan 0 text.toList) := List.takeWhile_sublist _
  constructor
  · intro span member
    rw [spans, List.mem_map] at member
    obtain ⟨lexeme, member, rfl⟩ := member
    obtain ⟨less, -, boundary⟩ := tiles.filled (part.subset member)
    have short := (Lexeme.fits_iff (Nat.le_of_lt less)).mp (List.mem_takeWhile_imp member)
    exact ⟨less, Nat.le_min.mpr ⟨boundary.le, Nat.le_sub_one_of_lt short⟩⟩
  · rw [spans]
    exact tiles.pairwise.sublist (part.map _)
  · rw [entries]
    exact collects.exists_init
  · intro span member
    obtain ⟨more, errors⟩ := errors
    have invalid : (ofText text names).1.invalidSpans = read.invalidSpans := by
      rw [invalidSpans, entries, invalidSpans]
    rw [invalid, collects.invalidSpans_eq] at member
    obtain ⟨error, inside, rfl⟩ := List.mem_map.mp member
    exact ⟨error, errors ▸ List.mem_append_left _ (List.mem_filter.mp inside).1, rfl⟩

/-- The tokens and comments of a text cover it. -/
theorem covers_ofText (text : String) (names : Interner)
    (short : text.utf8ByteSize < Span.offsetBound) :
    (ofText text names).1.Covers text (ofText text names).2 := by
  have tiles := Lexeme.tiles_scan 0 text.toList
  have fits := Lexeme.fits_of_short short
  have collects : Collects text.utf8ByteSize (ofText text names).2 [] (Lexeme.scan 0 text.toList)
      (ofText text names).1 := by
    rw [ofText_of_fits fits, Span.cutOffset_of_lt short]
    exact collects_ofLexemes (.refl _)
  generalize ofText text names = result at collects ⊢
  have spans : result.1.spans = (Lexeme.scan 0 text.toList).map (·.span) := collects.spans_eq
  constructor
  · intro span member
    rw [spans, List.mem_map] at member
    obtain ⟨lexeme, member, rfl⟩ := member
    exact tiles.filled member
  · rw [spans]
    exact tiles.pairwise
  · intro front c back same
    rcases tiles.covered same with blank | ⟨lexeme, member, start, stop⟩
    · right
      simpa [Lexeme.isBlank, or_assoc] using blank
    · left
      rw [Nat.zero_add] at start stop
      exact ⟨lexeme.span, spans ▸ List.mem_map_of_mem member, start, stop⟩
  · exact collects.exists_init
  · intro entry inEntries comment inComments
    obtain ⟨lexeme, member, isComment, span, same⟩ :=
      (collects.exists_lexeme inEntries inComments).resolve_left (by simp)
    obtain ⟨front, back, reads, start, stop, first⟩ := tiles.exists_place member
    rw [Nat.zero_add] at start
    refine ⟨front, lexeme.text, back, reads, ?_, same, first.spells isComment⟩
    rw [span, ← start, ← stop]
  · obtain ⟨broken, unclosed, same, others, few, ends⟩ := tiles.errors_split
    have errors : result.1.errors = broken ++ unclosed := collects.errors_eq.trans same
    have invalid := collects.map_span_of_errors errors others fun error member =>
      (ends error member).1
    refine ⟨broken, unclosed, errors, invalid, others, few, ?_⟩
    intro error member
    obtain ⟨kind, front, piece, reads, span, opened⟩ := ends error member
    refine ⟨kind, front, piece, reads, ?_, opened⟩
    rw [span, Nat.zero_add, Nat.zero_add, Lexeme.byteSize_toList]

/-- An invalid character, and a comment without an end, each with its error. -/
theorem covers_ofText_unclosed :
    let text := "x @ /* never /* closed */"
    let tokens := (ofText text .fresh).1
    tokens.Covers text (ofText text .fresh).2 ∧ tokens.spans = [⟨0, 1⟩, ⟨2, 3⟩, ⟨4, 25⟩] ∧
      tokens.errors = [⟨.invalidCharacter, ⟨2, 3⟩⟩, ⟨.unterminatedComment, ⟨4, 25⟩⟩] :=
  ⟨covers_ofText _ .fresh (by decide), by decide +kernel, by decide +kernel⟩

end TokenList

end IncrementalFrontend
