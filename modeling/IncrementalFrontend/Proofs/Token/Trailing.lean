import IncrementalFrontend.Proofs.Token.Spelling

/-!
Blank characters behind a text. A lexeme that is complete is not changed by them, so a text that lexes
without errors and does not end in a line comment has the same tokens with blanks behind it, up to
where the file ends.
-/
namespace IncrementalFrontend

namespace Lexeme

variable {c : Char} {cs rest blanks : List Char} {offset : Nat}

theorem takeWhile_append_blank {isPart : Char → Bool} (apart : ∀ c, isBlank c → isPart c = false)
    (ends : EndsAt blanks) : (rest ++ blanks).takeWhile isPart = rest.takeWhile isPart := by
  have stops : ([] ++ blanks).takeWhile isPart = [] := takeWhile_append_eq (by simp) apart ends
  rw [List.nil_append] at stops
  rw [List.takeWhile_append, stops, List.append_nil]
  split
  · next whole => exact ((List.takeWhile_prefix isPart).eq_of_length whole).symm
  · rfl

/-- A string literal goes on to its closing quote, whatever is behind that. -/
theorem quotedRest_append (closed : (quotedRest cs).2 = true) (more : List Char) :
    quotedRest (cs ++ more) = quotedRest cs ∧ (quotedRest cs).1 ≤ cs.length := by
  fun_induction quotedRest cs with
  | case1 | case3 | case4 | case5 => cases closed
  | case2 rest => simp [quotedRest]
  | case6 c rest plain length isClosed found ih =>
    rw [found] at ih
    obtain ⟨same, bound⟩ := ih closed
    have grown : quotedRest ('\\' :: c :: rest ++ more) = (length + 2, isClosed) := by
      simp only [List.cons_append, quotedRest, if_neg plain, same]
    exact ⟨grown, Nat.add_le_add_right bound 2⟩
  | case7 c rest quote newline backslash length isClosed found ih =>
    rw [found] at ih
    obtain ⟨same, bound⟩ := ih closed
    have grown : quotedRest (c :: rest ++ more) = (length + 1, isClosed) := by
      rw [List.cons_append, quotedRest_other quote newline backslash, same]
    exact ⟨grown, Nat.add_le_add_right bound 1⟩

/-- A block comment goes on to its end, whatever is behind that. -/
theorem commentRest_append {depth : Nat} (closed : (commentRest depth cs).2 = true)
    (more : List Char) : commentRest depth (cs ++ more) = commentRest depth cs := by
  fun_induction commentRest depth cs with
  | case1 => cases closed
  | case2 depth rest length isClosed found ih =>
    rw [found] at ih
    simp only [List.cons_append, commentRest, ih closed]
  | case3 rest => rfl
  | case4 rest outer length isClosed found ih =>
    rw [found] at ih
    simp only [List.cons_append, commentRest, ih closed]
  | case5 depth c rest opens closes length isClosed found ih =>
    rw [found] at ih
    cases rest with
    | nil =>
      cases found
      cases closed
    | cons d rest =>
      rw [List.cons_append, commentRest.eq_5 depth c (d :: rest ++ more), ih closed]
      · rintro more slash same
        exact opens rest slash (congrArg (· :: rest) (List.cons.inj same).1)
      · rintro more star same
        exact closes rest star (congrArg (· :: rest) (List.cons.inj same).1)

theorem isPrefixOf_append_blank (mark : Symbol) (ends : EndsAt blanks) :
    (mark.chars.1 :: mark.chars.2.toList).isPrefixOf (c :: (rest ++ blanks)) =
      (mark.chars.1 :: mark.chars.2.toList).isPrefixOf (c :: rest) := by
  cases rest with
  | cons d rest => cases mark.chars.2 <;> simp [List.isPrefixOf]
  | nil =>
    cases blanks with
    | nil => rfl
    | cons d blanks =>
      have blank := isBlank_iff.mp (ends d rfl)
      cases mark <;> simp [Symbol.chars, List.isPrefixOf] <;> rintro - rfl <;> simp at blank

theorem leading?_append_blank (ends : EndsAt blanks) :
    Symbol.leading? (c :: (rest ++ blanks)) = Symbol.leading? (c :: rest) := by
  rw [Symbol.leading?_eq, Symbol.leading?_eq]
  congr 1
  funext mark
  exact isPrefixOf_append_blank mark ends

theorem length_of_leading? {mark : Symbol} (found : Symbol.leading? (c :: rest) = some mark) :
    mark.text.length - 1 ≤ rest.length := by
  have fits := List.find?_some found
  have bound := (List.isPrefixOf_iff_prefix.mp fits).length_le
  rw [String.length_toList, List.length_cons] at bound
  omega

/-- Blanks behind a text do not change its last lexeme, unless that lacks its end or is a line comment
that goes on to the end. -/
theorem shapeOf_append_blank (ends : EndsAt blanks) (quote : (shapeOf c rest).1 ≠ .quoted false)
    (block : (shapeOf c rest).1 ≠ .blockComment false)
    (line : (shapeOf c rest).1 = .lineComment → (shapeOf c rest).2 < rest.length) :
    shapeOf c (rest ++ blanks) = shapeOf c rest ∧ (shapeOf c rest).2 ≤ rest.length := by
  have head (d : Char) (visible : isBlank d = false) :
      (rest ++ blanks).head? = some d ↔ rest.head? = some d := by
    cases rest with
    | cons e rest => rfl
    | nil =>
      refine ⟨fun here => ?_, nofun⟩
      exact absurd (ends d here) (by simp [visible])
  have slash := head '/' (by decide)
  have star := head '*' (by decide)
  unfold shapeOf at quote block line ⊢
  simp only [slash, star]
  split_ifs at quote block line ⊢ with word digit isQuote isLine isBlock
  · rw [takeWhile_append_blank (fun _ => not_isWordPart_of_isBlank) ends]
    exact ⟨rfl, (List.takeWhile_prefix _).length_le⟩
  · rw [takeWhile_append_blank (fun _ => not_isDigitPart_of_isBlank) ends]
    exact ⟨rfl, (List.takeWhile_prefix _).length_le⟩
  · have closed : (quotedRest rest).2 = true := by simpa using quote
    obtain ⟨same, bound⟩ := quotedRest_append closed blanks
    rw [same]
    exact ⟨rfl, bound⟩
  · have left := line rfl
    rw [List.takeWhile_append, if_neg (Nat.ne_of_lt left)]
    exact ⟨rfl, Nat.le_of_lt left⟩
  · obtain ⟨rest, rfl⟩ := List.head?_eq_some_iff.mp isBlock.2
    have closed : (commentRest 0 rest).2 = true := by simpa using block
    have bound := (holdsComments_commentRest 0 rest).bound
    rw [List.cons_append, List.tail_cons, commentRest_append closed, List.tail_cons]
    exact ⟨rfl, Nat.succ_le_succ bound⟩
  · rw [leading?_append_blank ends]
    cases found : Symbol.leading? (c :: rest) with
    | none => exact ⟨rfl, Nat.zero_le _⟩
    | some mark => exact ⟨rfl, length_of_leading? found⟩

structure IsComplete (lexeme : Lexeme) (stop : Nat) : Prop where
  quote : lexeme.shape ≠ .quoted false
  block : lexeme.shape ≠ .blockComment false
  line : lexeme.shape = .lineComment → lexeme.span.stop < stop

theorem scan_blank_all (blank : ∀ c ∈ blanks, isBlank c) : scan offset blanks = [] := by
  induction blanks generalizing offset with
  | nil => rw [scan]
  | cons c blanks ih =>
    obtain ⟨first, others⟩ := List.forall_mem_cons.mp blank
    rw [scan_blank first, ih others]

theorem byteSize_drop (length : Nat) (cs : List Char) :
    byteSize (cs.take length) + byteSize (cs.drop length) = byteSize cs := by
  rw [← byteSize_append, List.take_append_drop]

/-- Blanks behind complete lexemes give no more lexemes. -/
theorem scan_append_blank (blank : ∀ c ∈ blanks, isBlank c)
    (complete : ∀ lexeme ∈ scan offset cs, lexeme.IsComplete (offset + byteSize cs)) :
    scan offset (cs ++ blanks) = scan offset cs := by
  have ends : EndsAt blanks := fun c head => blank c (List.mem_of_mem_head? head)
  fun_induction scan offset cs with
  | case1 => exact scan_blank_all blank
  | case2 offset c rest isBlank ih =>
    rw [List.cons_append, scan_blank isBlank]
    refine ih fun lexeme member => ?_
    have complete := complete lexeme member
    rwa [byteSize, ← Nat.add_assoc] at complete
  | case3 offset c rest visible shape length found text stop ih =>
    obtain ⟨first, others⟩ := List.forall_mem_cons.mp complete
    have size := byteSize_drop length rest
    have left : shape = .lineComment → length < rest.length := by
      intro line
      have less := first.line line
      by_contra whole
      rw [List.drop_eq_nil_of_le (by omega)] at size
      simp only [stop, text, byteSize] at less size
      omega
    obtain ⟨same, bound⟩ : shapeOf c (rest ++ blanks) = shapeOf c rest ∧
        (shapeOf c rest).2 ≤ rest.length := by
      refine shapeOf_append_blank ends ?_ ?_ ?_ <;> rw [found]
      · exact first.quote
      · exact first.block
      · exact left
    rw [found] at same bound
    rw [List.cons_append, scan, if_neg visible, same]
    dsimp only
    rw [List.take_append_of_le_length bound, List.drop_append_of_le_length bound]
    refine congrArg _ (ih fun lexeme member => ?_)
    have complete := others lexeme member
    have total : offset + byteSize (c :: rest) = stop + byteSize (rest.drop length) := by
      simp only [stop, text, byteSize]
      omega
    rwa [total] at complete

end Lexeme

/-- The text ends in a line comment, to which any character behind it but a newline would belong. -/
def EndsInLineComment (text : String) : Prop :=
  ∃ lexeme ∈ Lexeme.scan 0 text.toList,
    lexeme.shape = .lineComment ∧ lexeme.span.stop = text.utf8ByteSize

namespace TokenList

/-- Tokens do not depend on where the file ends, but for the last one. -/
theorem ofLexemes_stop (stop stop' : Nat) (waiting : List Comment) (lexemes : List Lexeme)
    (names : Interner) : ∃ init comments errors,
      (ofLexemes stop waiting lexemes names).1 =
        ⟨init ++ [⟨.endOfFile (.point stop), comments⟩], errors⟩ ∧
      ofLexemes stop' waiting lexemes names =
        (⟨init ++ [⟨.endOfFile (.point stop'), comments⟩], errors⟩,
          (ofLexemes stop waiting lexemes names).2) := by
  induction lexemes generalizing waiting names with
  | nil => exact ⟨[], waiting, [], rfl, rfl⟩
  | cons lexeme rest ih =>
    simp only [ofLexemes]
    split
    · obtain ⟨init, comments, errors, same, same'⟩ := ih [] _
      rw [same, same']
      exact ⟨_ :: init, comments, errors, rfl, rfl⟩
    · obtain ⟨init, comments, errors, same, same'⟩ := ih [] _
      rw [same, same']
      exact ⟨_ :: init, comments, _, rfl, rfl⟩
    · obtain ⟨init, comments, errors, same, same'⟩ := ih _ _
      rw [same, same']
      exact ⟨init, comments, _, rfl, rfl⟩

variable {text blanks : String} {names : Interner}

theorem isComplete_of_errors (fine : (ofText text names).1.errors = [])
    (outside : ¬ EndsInLineComment text) :
    ∀ lexeme ∈ Lexeme.scan 0 text.toList, lexeme.IsComplete text.utf8ByteSize := by
  intro lexeme member
  have collects : Collects (Span.cutOffset text.utf8ByteSize) (ofText text names).2 []
      (Lexeme.scan 0 text.toList) (ofText text names).1 := by
    rw [ofText_of_fits (fits_of_errors fine)]
    exact collects_ofLexemes (.refl _)
  have none : lexeme.error? = none := by
    have errors := collects.errors_eq.symm.trans fine
    simpa using List.filterMap_eq_nil_iff.mp errors lexeme member
  refine ⟨fun open_ => ?_, fun open_ => ?_, fun line => ?_⟩
  · simp [Lexeme.error?, open_] at none
  · simp [Lexeme.error?, open_] at none
  · obtain ⟨front, back, same, start, stop, -⟩ :=
      (Lexeme.tiles_scan 0 text.toList).exists_place member
    have size := Lexeme.byteSize_toList text
    rw [same, Lexeme.byteSize_append, Lexeme.byteSize_append] at size
    have ends : lexeme.span.stop ≠ text.utf8ByteSize := fun ends => outside ⟨lexeme, member, line, ends⟩
    omega

/-- Blanks behind a text move the end of the file and change nothing else. -/
theorem ofText_append_blank (fine : (ofText text names).1.errors = [])
    (outside : ¬ EndsInLineComment text) (blank : ∀ c ∈ blanks.toList, Lexeme.isBlank c) :
    ∃ init comments,
      (ofText text names).1 =
        ⟨init ++ [⟨.endOfFile (.point (Span.cutOffset text.utf8ByteSize)), comments⟩], []⟩ ∧
      ofText (text ++ blanks) names =
        (⟨init ++ [⟨.endOfFile (.point (Span.cutOffset (text ++ blanks).utf8ByteSize)), comments⟩], []⟩,
          (ofText text names).2) := by
  have complete := isComplete_of_errors fine outside
  have size : text.utf8ByteSize = 0 + Lexeme.byteSize text.toList := by
    rw [Lexeme.byteSize_toList, Nat.zero_add]
  rw [size] at complete
  have lexemes : Lexeme.scan 0 (text ++ blanks).toList = Lexeme.scan 0 text.toList := by
    rw [String.toList_append]
    exact Lexeme.scan_append_blank blank complete
  have fits := fits_of_errors fine
  have fits' : ∀ lexeme ∈ Lexeme.scan 0 (text ++ blanks).toList, lexeme.fits := lexemes ▸ fits
  rw [ofText_of_fits fits] at fine ⊢
  rw [ofText_of_fits fits', lexemes]
  obtain ⟨init, comments, errors, same, same'⟩ := ofLexemes_stop (Span.cutOffset text.utf8ByteSize)
    (Span.cutOffset (text ++ blanks).utf8ByteSize) [] (Lexeme.scan 0 text.toList) names
  obtain rfl : errors = [] := by rwa [same] at fine
  exact ⟨init, comments, same, same'⟩

end TokenList

end IncrementalFrontend
