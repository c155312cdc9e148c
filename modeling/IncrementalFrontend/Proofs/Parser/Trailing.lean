import IncrementalFrontend.Proofs.Parser.Locating
import IncrementalFrontend.Proofs.Parser.Renaming
import IncrementalFrontend.Proofs.Token.Trailing

/-!
Blank characters behind a text do not change its tree. Where the file ends is no matter to any
decision, and no node is located there: each ends with a token or a comment in front of it.
-/
namespace IncrementalFrontend

namespace LineIndex

variable {offset line start : Nat} {lines : LineIndex} {text back : String}

theorem startsAfter_append (offset : Nat) (front back : List Char) :
    startsAfter offset (front ++ back) =
      startsAfter offset front ++ startsAfter (offset + Lexeme.byteSize front) back := by
  induction front generalizing offset with
  | nil => rfl
  | cons c front ih =>
    rw [List.cons_append, startsAfter, startsAfter, ih, Lexeme.byteSize, Nat.add_assoc]
    split <;> rfl

/-- The line of an offset is the only one that starts at or before it while the next ones do not. -/
theorem lineOf_eq (here : lines.starts[line]? = some start) (le : start ≤ offset)
    (behind : ∀ other later, lines.starts[other]? = some later → line < other → offset < later) :
    lines.lineOf offset = line := by
  obtain ⟨start', here', le', behind'⟩ := lines.lineOf_spec offset
  refine Nat.le_antisymm (Nat.le_of_not_lt fun more => ?_) (Nat.le_of_not_lt fun fewer => ?_)
  · have := behind _ _ here' more
    omega
  · have := behind' _ _ here fewer
    omega

theorem starts_ofText_eq (text : String) (line : Nat) :
    (ofText text).starts[line]? = (0 :: startsAfter 0 text.toList)[line]? :=
  List.getElem?_toArray

/-- What is put behind a text moves nothing in it. -/
theorem position_append (text back : String) (within : offset ≤ text.utf8ByteSize) :
    (ofText (text ++ back)).position offset = (ofText text).position offset := by
  obtain ⟨start, here, le, behind⟩ := (ofText text).lineOf_spec offset
  have entries (line : Nat) : (ofText (text ++ back)).starts[line]? =
      ((0 :: startsAfter 0 text.toList) ++ startsAfter text.utf8ByteSize back.toList)[line]? := by
    rw [starts_ofText_eq, String.toList_append, startsAfter_append, Lexeme.byteSize_toList,
      Nat.zero_add, List.cons_append]
  have kept {line start : Nat} (here : (ofText text).starts[line]? = some start) :
      (ofText (text ++ back)).starts[line]? = some start := by
    rw [starts_ofText_eq] at here
    rw [entries, List.getElem?_append_left (List.getElem?_eq_some_iff.mp here).1, here]
  have same : (ofText (text ++ back)).lineOf offset = (ofText text).lineOf offset := by
    refine lineOf_eq (kept here) le fun other later there more => ?_
    rw [entries, List.getElem?_append] at there
    split at there
    · exact behind other later ((starts_ofText_eq text other).trans there) more
    · have := lt_of_mem_startsAfter (List.mem_of_getElem? there)
      omega
  rw [position, position, same, startOf_eq _ here, startOf_eq _ (kept here)]

theorem location_append (text back : String) (path : Name) {span : Span}
    (first : span.start ≤ text.utf8ByteSize) (last : span.stop ≤ text.utf8ByteSize) :
    (ofText (text ++ back)).location path span = (ofText text).location path span := by
  rw [location, location, position_append text back first, position_append text back (by omega)]

end LineIndex

/-- The spans are the same up to a place in the text, wherever they end behind it. -/
def Span.IsSameUpTo (limit : Nat) (span span' : Span) : Prop :=
  min span.start limit = min span'.start limit ∧ min span.stop limit = min span'.stop limit

namespace Likeness

def upTo (limit : Nat) (lines lines' : LineIndex) (path : Name) : Likeness where
  name := Eq
  span := Span.IsSameUpTo limit
  location location location' := ∃ span span', Span.IsSameUpTo limit span span' ∧
    location = lines.location path span ∧ location' = lines'.location path span'
  dummy := ⟨rfl, rfl⟩
  reach := by
    rintro _ _ _ _ ⟨start, stop⟩ ⟨-, stop'⟩
    exact ⟨start, by dsimp only; omega⟩

variable {limit : Nat} {lines lines' : LineIndex} {path : Name}

theorem upTo_entries (entry : TokenEntry) : (upTo limit lines lines' path).Entries entry entry :=
  ⟨⟨.refl (fun _ => rfl) _, rfl, rfl⟩, List.forall₂_same.mpr fun _ _ => ⟨rfl, rfl, rfl, rfl⟩⟩

theorem upTo_endOfFile {stop : Nat} (behind : limit ≤ stop) (comments : List Comment) :
    (upTo limit lines lines' path).Entries ⟨.endOfFile (.point limit), comments⟩
      ⟨.endOfFile (.point stop), comments⟩ := by
  have same : Span.IsSameUpTo limit (.point limit) (.point stop) := by
    simp [Span.IsSameUpTo, Span.point, behind]
  exact ⟨⟨.endOfFile, same⟩, List.forall₂_same.mpr fun _ _ => ⟨rfl, rfl, rfl, rfl⟩⟩

/-- Nodes that end within the text are in the same place if their places are the same up to its end. -/
theorem location_eq_of_upTo {text back : String} {location location' : Location} {span span' : Span}
    (inside : limit ≤ text.utf8ByteSize)
    (same : (upTo limit (.ofText text) (.ofText (text ++ back)) path).location location location')
    (here : location = (LineIndex.ofText text).location path span)
    (filled : span.start < span.stop) (within : span.stop ≤ limit)
    (here' : location' = (LineIndex.ofText (text ++ back)).location path span')
    (filled' : span'.start < span'.stop) (within' : span'.stop ≤ limit) :
    location = location' := by
  obtain ⟨told, told', ⟨start, stop⟩, rfl, rfl⟩ := same
  have first := LineIndex.position_injective _ (congrArg Location.first here)
  have last := LineIndex.position_injective _ (congrArg Location.last here)
  have first' := LineIndex.position_injective _ (congrArg Location.first here')
  have last' := LineIndex.position_injective _ (congrArg Location.last here')
  have starts : told.start = told'.start := by omega
  have stops : told.stop = told'.stop := by omega
  obtain rfl : told = told' := by
    cases told
    cases told'
    cases starts
    cases stops
    rfl
  exact (LineIndex.location_append text back path (by omega) (by omega)).symm

end Likeness

def Parser.Setting.upTo (unit : SourceUnit) (text back : String) (names : Interner)
    (entries entries' : List TokenEntry) : Parser.Setting where
  like := .upTo (Span.cutOffset text.utf8ByteSize) (.ofText text) (.ofText (text ++ back)) unit.path
  source := ⟨.ofText text, names, entries.length + 2⟩
  source' := ⟨.ofText (text ++ back), names, entries'.length + 2⟩
  unit := unit
  unit' := unit
  entries := entries
  ahead := 0
  front := .ofUnit unit
  texts := congrArg names.lookup
  places same := ⟨_, _, same, rfl, rfl⟩

namespace SourceUnit

variable (unit : SourceUnit) {text blanks : String} {names : Interner}

/-- Parsing goes alike where only the end of the file is further on. -/
theorem parses_of_endOfFile {init : List TokenEntry} {comments : List Comment}
    (tokens : (TokenList.ofText text names).1 =
      ⟨init ++ [⟨.endOfFile (.point (Span.cutOffset text.utf8ByteSize)), comments⟩], []⟩)
    (tokens' : TokenList.ofText (text ++ blanks) names =
      (⟨init ++ [⟨.endOfFile (.point (Span.cutOffset (text ++ blanks).utf8ByteSize)), comments⟩], []⟩,
        (TokenList.ofText text names).2)) :
    (Likeness.upTo (Span.cutOffset text.utf8ByteSize) (.ofText text) (.ofText (text ++ blanks))
      unit.path).Parses (unit.parse text names).1 (unit.parse (text ++ blanks) names).1 := by
  have size : Span.cutOffset text.utf8ByteSize ≤ Span.cutOffset (text ++ blanks).utf8ByteSize := by
    rw [String.utf8ByteSize_append]
    exact min_le_min_right _ (Nat.le_add_right ..)
  unfold parse
  rw [tokens']
  generalize TokenList.ofText text names = ran at tokens ⊢
  obtain ⟨_, later⟩ := ran
  obtain rfl := tokens
  dsimp only
  let setting : Parser.Setting := .upTo unit text blanks later
    (init ++ [⟨.endOfFile (.point (Span.cutOffset text.utf8ByteSize)), comments⟩])
    (init ++ [⟨.endOfFile (.point (Span.cutOffset (text ++ blanks).utf8ByteSize)), comments⟩])
  have builders : setting.Builders (.ofUnit unit) (.ofUnit unit) :=
    ⟨⟨[], rfl, .nil⟩, rfl, .nil, ⟨[], rfl, .nil⟩, rfl, rfl⟩
  have pairs : List.Forall₂ setting.like.Entries setting.entries
      (init ++ [⟨.endOfFile (.point (Span.cutOffset (text ++ blanks).utf8ByteSize)), comments⟩]) :=
    List.rel_append (List.forall₂_same.mpr fun entry _ => Likeness.upTo_entries entry)
      (.cons (Likeness.upTo_endOfFile size comments) .nil)
  exact Parser.Setting.parses_buildTokens rfl ⟨rfl, rfl, rfl⟩ rfl rfl rfl rfl pairs builders

/-- Blanks behind a text that lexes without errors and does not end in a line comment do not change
its tree, and bring no new names. -/
theorem parse_append_blank (fine : (TokenList.ofText text names).1.errors = [])
    (outside : ¬ EndsInLineComment text) (blank : ∀ c ∈ blanks.toList, Lexeme.isBlank c) :
    (unit.parse (text ++ blanks) names).1.tree = (unit.parse text names).1.tree ∧
      (unit.parse (text ++ blanks) names).2 = (unit.parse text names).2 := by
  obtain ⟨init, comments, tokens, tokens'⟩ := TokenList.ofText_append_blank fine outside blank
  obtain ⟨log, last, course⟩ := unit.exists_course text names
  obtain ⟨log', last', course'⟩ := unit.exists_course (text ++ blanks) names
  have spans : (TokenList.ofText (text ++ blanks) names).1.spans =
      (TokenList.ofText text names).1.spans := by
    rw [tokens', tokens]
    simp [TokenList.spans, TokenEntry.spans, ← List.append_assoc]
  have within {span : Span} (member : span ∈ (TokenList.ofText text names).1.spans) :
      span.stop ≤ Span.cutOffset text.utf8ByteSize :=
    ((TokenList.standsWithin_ofText text names).filled span member).2
  have later : (unit.parse (text ++ blanks) names).2 = (unit.parse text names).2 := by
    unfold parse
    rw [tokens']
  refine ⟨?_, later⟩
  have trees := (unit.parses_of_endOfFile tokens tokens').tree
  refine (trees.eq (fun _ _ same => same) fun placed member placed' member' location => ?_).symm
  rw [course.nodes_eq] at member
  rw [course'.nodes_eq] at member'
  obtain ⟨span, here, filled, final, told, stop⟩ := course.exists_span member
  obtain ⟨span', here', filled', final', told', stop'⟩ := course'.exists_span member'
  rw [spans] at told'
  exact Likeness.location_eq_of_upTo (Span.cutOffset_le _) location here filled (stop ▸ within told)
    here' filled' (stop' ▸ within told')

end SourceUnit

end IncrementalFrontend
