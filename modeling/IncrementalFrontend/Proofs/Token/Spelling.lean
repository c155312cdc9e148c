import Mathlib.Data.List.Forall2
import IncrementalFrontend.Proofs.Text.Numeral
import IncrementalFrontend.Proofs.Token.Coverage

/-!
Spellings of tokens. Scanning a text that spells tokens with one blank character between any two
gives back the tokens.
-/
namespace IncrementalFrontend

namespace Lexeme

def escape : List Char → List Char
  | [] => []
  | '\n' :: rest => '\\' :: 'n' :: escape rest
  | '\t' :: rest => '\\' :: 't' :: escape rest
  | '\\' :: rest => '\\' :: '\\' :: escape rest
  | '"' :: rest => '\\' :: '"' :: escape rest
  | c :: rest => c :: escape rest

theorem unescape_other {c : Char} (plain : c ≠ '\\') (rest : List Char) :
    unescape (c :: rest) = c :: unescape rest := by
  apply unescape.eq_8 <;> simp_all

theorem unescape_escape (content : List Char) : unescape (escape content) = content := by
  fun_induction escape content with
  | case1 => rfl
  | case2 rest ih => simp [unescape, ih]
  | case3 rest ih => simp [unescape, ih]
  | case4 rest ih => simp [unescape, ih]
  | case5 rest ih => simp [unescape, ih]
  | case6 c rest _ _ backslash _ ih => rw [unescape_other backslash, ih]

theorem quotedRest_other {c : Char} (quote : c ≠ '"') (newline : c ≠ '\n') (backslash : c ≠ '\\')
    (rest : List Char) :
    quotedRest (c :: rest) = ((quotedRest rest).1 + 1, (quotedRest rest).2) := by
  apply quotedRest.eq_6 <;> simp_all

/-- The quote behind an escaped content is the one that closes the literal. -/
theorem quotedRest_escape (content back : List Char) :
    quotedRest (escape content ++ '"' :: back) = ((escape content).length + 1, true) := by
  fun_induction escape content with
  | case1 => rfl
  | case2 rest ih => simp [quotedRest, ih]
  | case3 rest ih => simp [quotedRest, ih]
  | case4 rest ih => simp [quotedRest, ih]
  | case5 rest ih => simp [quotedRest, ih]
  | case6 c rest newline _ backslash quote ih =>
    rw [List.cons_append, quotedRest_other quote newline backslash, ih]
    rfl

end Lexeme

/-- A token whose text is not interned. Integers are not bounded. -/
inductive Lexical where
  | keyword (word : Keyword)
  | symbol (mark : Symbol)
  | integer (value : Nat)
  | string (content : List Char)
  | identifier (text : List Char)

namespace Lexical

open Lexeme

inductive IsSpelled : Lexical → List Char → Prop where
  | keyword (word : Keyword) : IsSpelled (.keyword word) word.text.toList
  | symbol (mark : Symbol) : IsSpelled (.symbol mark) mark.text.toList
  | integer {value zeros : Nat} {first : Char} {rest : List Char} (begins : first.isDigit)
      (digits : (first :: rest).filter (· ≠ '_') = List.replicate zeros '0' ++ Nat.toDigits 10 value) :
      IsSpelled (.integer value) (first :: rest)
  | string (content : List Char) : IsSpelled (.string content) ('"' :: (escape content ++ ['"']))
  | identifier {first : Char} {rest : List Char} (begins : isWordStart first)
      (parts : ∀ c ∈ rest, isWordPart c) (free : ∀ word : Keyword, word.text.toList ≠ first :: rest) :
      IsSpelled (.identifier (first :: rest)) (first :: rest)

inductive AreSpelled : List Lexical → List Char → Prop where
  | nil : AreSpelled [] []
  | last {token : Lexical} {spelling : List Char} (spelled : token.IsSpelled spelling) :
      AreSpelled [token] spelling
  | cons {token next : Lexical} {more : List Lexical} {spelling rest : List Char} {blank : Char}
      (spelled : token.IsSpelled spelling) (separates : isBlank blank)
      (others : AreSpelled (next :: more) rest) :
      AreSpelled (token :: next :: more) (spelling ++ blank :: rest)

def IsKind (names : Interner) : Lexical → TokenKind → Prop
  | keyword word, kind => kind = .keyword word
  | symbol mark, kind => kind = .symbol mark
  | integer value, kind =>
    if value < 2 ^ 64 then kind = .integer (UInt64.ofNat value) else kind = .invalid
  | string content, kind => ∃ name, kind = .string name ∧ names.lookup name = String.ofList content
  | identifier text, kind =>
    ∃ name, kind = .identifier name ∧ names.lookup name = String.ofList text

end Lexical

namespace Lexeme

def EndsAt (back : List Char) : Prop :=
  ∀ c ∈ back.head?, isBlank c

theorem isBlank_iff {c : Char} :
    isBlank c = true ↔ c = ' ' ∨ c = '\t' ∨ c = '\r' ∨ c = '\n' ∨ c = '\x0c' := by
  simp [isBlank, or_assoc]

/-- Characters of a class, followed by a character that is not of the class. -/
theorem takeWhile_append_eq {isPart : Char → Bool} {rest back : List Char}
    (parts : ∀ c ∈ rest, isPart c) (apart : ∀ c, isBlank c → isPart c = false)
    (ends : EndsAt back) : (rest ++ back).takeWhile isPart = rest := by
  have stops : back.takeWhile isPart = [] := by
    cases back with
    | nil => rfl
    | cons c back => simp [apart c (ends c rfl)]
  rw [List.takeWhile_append_of_pos parts, stops, List.append_nil]

theorem not_isWordPart_of_isBlank {c : Char} (blank : isBlank c) : isWordPart c = false := by
  obtain rfl | rfl | rfl | rfl | rfl := isBlank_iff.mp blank <;> decide

theorem not_isDigitPart_of_isBlank {c : Char} (blank : isBlank c) : isDigitPart c = false := by
  obtain rfl | rfl | rfl | rfl | rfl := isBlank_iff.mp blank <;> decide

theorem shapeOf_word {first : Char} {rest back : List Char} (begins : isWordStart first)
    (parts : ∀ c ∈ rest, isWordPart c) (ends : EndsAt back) :
    shapeOf first (rest ++ back) = (.word, rest.length) := by
  rw [shapeOf, if_pos begins,
    takeWhile_append_eq parts (fun _ => not_isWordPart_of_isBlank) ends]

theorem not_isWordStart_of_isDigit {c : Char} (digit : c.isDigit) : isWordStart c = false := by
  simp only [Char.isDigit, ge_iff_le, Bool.and_eq_true, decide_eq_true_eq, UInt32.le_iff_toNat_le]
    at digit
  have other : c ≠ '_' := by rintro rfl; simp at digit
  delta isWordStart Char.isAlpha Char.isUpper Char.isLower
  simp only [UInt32.le_iff_toNat_le]
  simp [other]
  simp at digit
  omega

theorem shapeOf_digits {first : Char} {rest back : List Char} (begins : first.isDigit)
    (parts : ∀ c ∈ rest, isDigitPart c) (ends : EndsAt back) :
    shapeOf first (rest ++ back) = (.digits, rest.length) := by
  rw [shapeOf, not_isWordStart_of_isDigit begins, if_neg Bool.false_ne_true, if_pos begins,
    takeWhile_append_eq parts (fun _ => not_isDigitPart_of_isBlank) ends]

theorem shapeOf_quoted (content back : List Char) :
    shapeOf '"' (escape content ++ '"' :: back) = (.quoted true, (escape content).length + 1) := by
  have word : isWordStart '"' = false := by decide
  have digit : '"'.isDigit = false := by decide
  simp [shapeOf, word, digit, quotedRest_escape]

end Lexeme

def Symbol.chars : Symbol → Char × Option Char
  | parenOpen => ('(', none) | parenClose => (')', none)
  | braceOpen => ('\x7b', none) | braceClose => ('\x7d', none)
  | bracketOpen => ('[', none) | bracketClose => (']', none)
  | comma => (',', none) | colon => (':', none) | semicolon => (';', none) | dot => ('.', none)
  | equalEqual => ('=', '=') | equal => ('=', none) | notEqual => ('!', '=')
  | lessEqual => ('<', '=') | less => ('<', none) | greaterEqual => ('>', '=') | greater => ('>', none)
  | plus => ('+', none) | minus => ('-', none) | star => ('*', none) | slash => ('/', none)
  | percent => ('%', none) | bang => ('!', none) | andAnd => ('&', '&') | orOr => ('|', '|')

theorem Symbol.toList_text (mark : Symbol) :
    mark.text.toList = mark.chars.1 :: mark.chars.2.toList := by
  cases mark <;> decide

theorem Symbol.leading?_eq (cs : List Char) : leading? cs =
    all.find? fun mark => (mark.chars.1 :: mark.chars.2.toList).isPrefixOf cs := by
  simp only [leading?, toList_text]

namespace Lexeme

theorem leading?_of_endsAt (mark : Symbol) {back : List Char} (ends : EndsAt back) :
    Symbol.leading? (mark.chars.1 :: (mark.chars.2.toList ++ back)) = some mark := by
  rw [Symbol.leading?_eq]
  cases back with
  | nil => cases mark <;> decide
  | cons c back =>
    obtain rfl | rfl | rfl | rfl | rfl := isBlank_iff.mp (ends c rfl) <;> cases mark <;> rfl

theorem shapeOf_symbol (mark : Symbol) {back : List Char} (ends : EndsAt back) :
    shapeOf mark.chars.1 (mark.chars.2.toList ++ back) = (.symbol mark, mark.chars.2.toList.length) := by
  have word : isWordStart mark.chars.1 = false := by cases mark <;> decide
  have digit : mark.chars.1.isDigit = false := by cases mark <;> decide
  have quote : mark.chars.1 ≠ '"' := by cases mark <;> decide
  have comment (c : Char) (visible : isBlank c = false) (other : mark.chars.2 ≠ some c) :
      (mark.chars.2.toList ++ back).head? ≠ some c := by
    intro head
    cases second : mark.chars.2 with
    | some d => simp_all
    | none =>
      rw [second] at head
      exact Bool.false_ne_true (visible.symm.trans (ends c head))
  have line := comment '/' (by decide) (by cases mark <;> decide)
  have block := comment '*' (by decide) (by cases mark <;> decide)
  have length : mark.text.length - 1 = mark.chars.2.toList.length := by
    rw [← String.length_toList, Symbol.toList_text, List.length_cons, Nat.add_sub_cancel]
  rw [shapeOf, word, digit, if_neg Bool.false_ne_true, if_neg Bool.false_ne_true, if_neg quote,
    if_neg fun both => line both.2, if_neg fun both => block both.2, leading?_of_endsAt mark ends]
  simp only [length]

/-- The first lexeme, with what is behind it. -/
theorem scan_cons {c : Char} {rest back : List Char} {shape : Shape} (visible : isBlank c = false)
    (found : shapeOf c (rest ++ back) = (shape, rest.length)) (offset : Nat) :
    scan offset (c :: (rest ++ back)) =
      ⟨shape, c :: rest, ⟨offset, offset + byteSize (c :: rest)⟩⟩ ::
        scan (offset + byteSize (c :: rest)) back := by
  rw [scan, visible, if_neg Bool.false_ne_true, found]
  simp

theorem scan_blank {c : Char} (blank : isBlank c) (offset : Nat) (rest : List Char) :
    scan offset (c :: rest) = scan (offset + c.utf8Size) rest := by
  rw [scan, if_pos blank]

theorem not_isBlank_of_isWordStart {c : Char} (begins : isWordStart c) : isBlank c = false := by
  refine Bool.eq_false_iff.mpr fun blank => ?_
  have part := not_isWordPart_of_isBlank blank
  simp [isWordPart, begins] at part

theorem not_isBlank_of_isDigit {c : Char} (digit : c.isDigit) : isBlank c = false := by
  refine Bool.eq_false_iff.mpr fun blank => ?_
  have part := not_isWordPart_of_isBlank blank
  simp [isWordPart, digit] at part

theorem word_chars (word : Keyword) : ∃ first rest, word.text.toList = first :: rest ∧
    isWordStart first ∧ ∀ c ∈ rest, isWordPart c := by
  cases word <;> exact ⟨_, _, rfl, by decide, List.all_eq_true.mp (by decide)⟩

def IsWhole (shape : Shape) (text : List Char) : Prop :=
  ∀ offset back, EndsAt back → scan offset (text ++ back) =
    ⟨shape, text, ⟨offset, offset + byteSize text⟩⟩ :: scan (offset + byteSize text) back

theorem isWhole_of_shapeOf {c : Char} {rest : List Char} {shape : Shape}
    (visible : isBlank c = false)
    (found : ∀ back, EndsAt back → shapeOf c (rest ++ back) = (shape, rest.length)) :
    IsWhole shape (c :: rest) :=
  fun offset back ends => scan_cons visible (found back ends) offset

theorem isWhole_word {first : Char} {rest : List Char} (begins : isWordStart first)
    (parts : ∀ c ∈ rest, isWordPart c) : IsWhole .word (first :: rest) :=
  isWhole_of_shapeOf (not_isBlank_of_isWordStart begins) fun _ => shapeOf_word begins parts

theorem isWhole_digits {first : Char} {rest : List Char} (begins : first.isDigit)
    (parts : ∀ c ∈ rest, isDigitPart c) : IsWhole .digits (first :: rest) :=
  isWhole_of_shapeOf (not_isBlank_of_isDigit begins) fun _ => shapeOf_digits begins parts

theorem isWhole_quoted (content : List Char) :
    IsWhole (.quoted true) ('"' :: (escape content ++ ['"'])) := by
  refine isWhole_of_shapeOf (by decide) fun back _ => ?_
  simpa using shapeOf_quoted content back

theorem isWhole_symbol (mark : Symbol) : IsWhole (.symbol mark) mark.text.toList := by
  rw [Symbol.toList_text]
  exact isWhole_of_shapeOf (by cases mark <;> decide) fun _ => shapeOf_symbol mark

end Lexeme

namespace Lexical

open Lexeme

def IsMeant (token : Lexical) (later : Interner) : Meaning → Prop
  | .token kind => token.IsKind later kind ∧ kind ≠ .invalid
  | .broken error => token.IsKind later .invalid ∧ error = .integerOverflow
  | .comment .. => False

theorem isDigitPart_of_filter {zeros value : Nat} {text : List Char} {c : Char}
    (digits : text.filter (· ≠ '_') = List.replicate zeros '0' ++ Nat.toDigits 10 value)
    (member : c ∈ text) : isDigitPart c := by
  by_cases underscore : c = '_'
  · simp [isDigitPart, underscore]
  · have digit : c ∈ text.filter (· ≠ '_') := List.mem_filter.mpr ⟨member, by simpa using underscore⟩
    simp [isDigitPart, Text.isDigit_of_mem_zeros (digits ▸ digit)]

theorem ofText?_eq_none {text : List Char} (free : ∀ word : Keyword, word.text.toList ≠ text) :
    Keyword.ofText? (String.ofList text) = none := by
  refine List.find?_eq_none.mpr fun word _ same => free word ?_
  rw [beq_iff_eq.mp same, String.toList_ofList]

theorem IsSpelled.exists_shape {token : Lexical} {spelling : List Char}
    (spelled : token.IsSpelled spelling) : ∃ shape, IsWhole shape spelling ∧
      ∀ span names later, (meaning ⟨shape, spelling, span⟩ names).2.Keeps later →
        token.IsMeant later (meaning ⟨shape, spelling, span⟩ names).1 := by
  cases spelled with
  | keyword word =>
    obtain ⟨first, rest, same, begins, parts⟩ := word_chars word
    refine ⟨.word, same ▸ isWhole_word begins parts, fun span names later keeps => ?_⟩
    simp [meaning, Keyword.ofText?_text, IsMeant, IsKind]
  | symbol mark =>
    exact ⟨.symbol mark, isWhole_symbol mark, fun span names later keeps => ⟨rfl, nofun⟩⟩
  | @integer value zeros first rest begins digits =>
    have parts (c : Char) (member : c ∈ rest) : isDigitPart c :=
      isDigitPart_of_filter digits (List.mem_cons_of_mem _ member)
    refine ⟨.digits, isWhole_digits begins parts, fun span names later keeps => ?_⟩
    have same : integerValue (first :: rest) = value := by
      rw [integerValue, digits, Text.digitsValue_zeros]
    have bound : integerBound = 2 ^ 64 := rfl
    by_cases fits : value < 2 ^ 64
    · simp only [meaning, same, bound, if_pos fits]
      exact ⟨by simp only [IsKind, if_pos fits], nofun⟩
    · simp only [meaning, same, bound, if_neg fits]
      exact ⟨by simp only [IsKind, if_neg fits], rfl⟩
  | string content =>
    refine ⟨.quoted true, isWhole_quoted content, fun span names later keeps => ?_⟩
    have same : unescape (escape content ++ ['"']).dropLast = content := by
      rw [List.dropLast_concat, unescape_escape]
    simp only [meaning, List.tail_cons, same] at keeps ⊢
    exact ⟨⟨_, rfl, keeps.lookup_intern⟩, nofun⟩
  | @identifier first rest begins parts free =>
    refine ⟨.word, isWhole_word begins parts, fun span names later keeps => ?_⟩
    simp only [meaning, ofText?_eq_none free] at keeps ⊢
    exact ⟨⟨_, rfl, keeps.lookup_intern⟩, nofun⟩

structure AreRead (stop : Nat) (later : Interner) (spelled : List Lexical) (tokens : TokenList) :
    Prop where
  entries : ∃ entries, tokens.entries = entries ++ [⟨.endOfFile (.point stop), []⟩] ∧
    List.Forall₂ (fun token entry => entry.comments = [] ∧ token.IsKind later entry.token.kind)
      spelled entries
  errors : tokens.errors = tokens.invalidSpans.map (⟨.integerOverflow, ·⟩)

variable {stop : Nat} {later : Interner}

theorem areRead_nil (offset : Nat) (names : Interner) :
    AreRead stop later [] (TokenList.ofLexemes stop [] (scan offset []) names).1 := by
  rw [scan]
  exact ⟨⟨[], rfl, .nil⟩, rfl⟩

theorem areRead_ofLexemes {token : Lexical} {more : List Lexical} {lexeme : Lexeme}
    {rest : List Lexeme} {names : Interner}
    (keeps : (TokenList.ofLexemes stop [] (lexeme :: rest) names).2.Keeps later)
    (meant : ∀ names, (lexeme.meaning names).2.Keeps later →
      token.IsMeant later (lexeme.meaning names).1)
    (others : ∀ names, (TokenList.ofLexemes stop [] rest names).2.Keeps later →
      AreRead stop later more (TokenList.ofLexemes stop [] rest names).1) :
    AreRead stop later (token :: more) (TokenList.ofLexemes stop [] (lexeme :: rest) names).1 := by
  have meant := meant names
  rw [TokenList.ofLexemes] at keeps ⊢
  split at keeps <;> rename_i found <;> rw [found] at meant <;>
    have meant := meant (.trans (TokenList.keeps_ofLexemes _ _ _ _) keeps)
  · obtain ⟨⟨entries, same, kinds⟩, errors⟩ := others _ keeps
    refine ⟨⟨_ :: entries, congrArg _ same, .cons ⟨rfl, meant.1⟩ kinds⟩, ?_⟩
    simpa [TokenList.invalidSpans, meant.2] using errors
  · obtain ⟨⟨entries, same, kinds⟩, errors⟩ := others _ keeps
    refine ⟨⟨_ :: entries, congrArg _ same, .cons ⟨rfl, meant.1⟩ kinds⟩, ?_⟩
    simpa [TokenList.invalidSpans, meant.2] using errors
  · exact meant.elim

/-- Scanning spelled tokens gives the tokens. -/
theorem AreSpelled.areRead {spelled : List Lexical} {cs : List Char}
    (areSpelled : AreSpelled spelled cs) (offset : Nat) (names : Interner)
    (keeps : (TokenList.ofLexemes stop [] (scan offset cs) names).2.Keeps later) :
    AreRead stop later spelled (TokenList.ofLexemes stop [] (scan offset cs) names).1 := by
  induction areSpelled generalizing offset names with
  | nil => exact areRead_nil offset names
  | @last token spelling spelled =>
    obtain ⟨shape, whole, meant⟩ := spelled.exists_shape
    have scanned := whole offset [] (by simp [EndsAt])
    rw [List.append_nil] at scanned
    rw [scanned] at keeps ⊢
    exact areRead_ofLexemes keeps (fun names => meant _ names later) fun names _ => areRead_nil _ names
  | @cons token next more spelling rest blank spelled separates others ih =>
    obtain ⟨shape, whole, meant⟩ := spelled.exists_shape
    have scanned := whole offset (blank :: rest) (by simpa [EndsAt] using separates)
    rw [scan_blank separates] at scanned
    rw [scanned] at keeps ⊢
    exact areRead_ofLexemes keeps (fun names => meant _ names later) fun names => ih _ names

theorem IsKind.ne_invalid {token : Lexical} {kind : TokenKind} (isKind : token.IsKind later kind)
    (fits : ∀ value, token = .integer value → value < 2 ^ 64) : kind ≠ .invalid := by
  cases token with
  | keyword word => simp_all [IsKind]
  | symbol mark => simp_all [IsKind]
  | integer value =>
    rw [IsKind, if_pos (fits value rfl)] at isKind
    simp [isKind]
  | string content =>
    obtain ⟨name, rfl, -⟩ := isKind
    simp
  | identifier text =>
    obtain ⟨name, rfl, -⟩ := isKind
    simp

theorem forall_ne_invalid {spelled : List Lexical} {entries : List TokenEntry}
    (kinds : List.Forall₂ (fun token entry => entry.comments = [] ∧
      token.IsKind later entry.token.kind) spelled entries)
    (fits : ∀ value, .integer value ∈ spelled → value < 2 ^ 64) :
    ∀ entry ∈ entries, entry.token.kind ≠ .invalid := by
  induction kinds with
  | nil => simp
  | @cons token entry spelled entries first others ih =>
    refine List.forall_mem_cons.mpr ⟨?_, ?_⟩
    · exact first.2.ne_invalid fun value same => fits value (same ▸ List.mem_cons_self)
    · exact ih fun value member => fits value (List.mem_cons_of_mem _ member)

end Lexical

namespace TokenList

open Lexical

/-- Spelled tokens are read back from their text, with their names. A numeral of more than 64 bits is
an invalid token with an error; there are no other errors, and no comments. Only of a text of 4 GiB or
more, which is an error, some may not be read. -/
theorem ofText_spelled (spelled : List Lexical) (text : String) (names : Interner)
    (areSpelled : AreSpelled spelled text.toList) :
    ((∃ entries, (ofText text names).1.entries =
        entries ++ [⟨.endOfFile (.point (Span.cutOffset text.utf8ByteSize)), []⟩] ∧
      List.Forall₂ (fun token entry => entry.comments = [] ∧
        token.IsKind (ofText text names).2 entry.token.kind) spelled entries) ∧
    (ofText text names).1.errors =
      (ofText text names).1.invalidSpans.map (⟨.integerOverflow, ·⟩) ∧
    ((∀ value, .integer value ∈ spelled → value < 2 ^ 64) → (ofText text names).1.errors = [])) ∨
    Span.offsetBound ≤ text.utf8ByteSize ∧ .tooLarge ∈ (ofText text names).1.errors := by
  by_cases fits : ∀ lexeme ∈ Lexeme.scan 0 text.toList, lexeme.fits
  · left
    rw [ofText_of_fits fits]
    obtain ⟨⟨entries, same, kinds⟩, errors⟩ := areSpelled.areRead 0 names (.refl _)
    refine ⟨⟨entries, same, kinds⟩, errors, fun small => ?_⟩
    have valid := forall_ne_invalid kinds small
    rw [errors, invalidSpans, same, List.filter_append, List.filter_eq_nil_iff.mpr]
    · rfl
    · simpa using valid
  · right
    exact ⟨Nat.le_of_not_lt fun short => fits (Lexeme.fits_of_short short), tooLarge_mem_errors fits⟩

/-- A keyword and an identifier that goes on behind it, a numeral with zeros and underscores, a string
with escapes, and a numeral that is too large. -/
theorem ofText_spelled_line :
    let spelled : List Lexical := [.keyword .kwIn, .identifier ['i', 'n', 'n'], .symbol .equalEqual,
      .integer 7, .string ['a', '"', '\n'], .integer (2 ^ 64)]
    let text := "in inn == 0_07_ \"a\\\"\\n\" 18446744073709551616"
    AreSpelled spelled text.toList ∧
      (∃ entries, (ofText text .fresh).1.entries =
          entries ++ [⟨.endOfFile (.point text.utf8ByteSize), []⟩] ∧
        List.Forall₂ (fun token entry => entry.comments = [] ∧
          token.IsKind (ofText text .fresh).2 entry.token.kind) spelled entries) ∧
      (ofText text .fresh).1.errors =
        (ofText text .fresh).1.invalidSpans.map (⟨.integerOverflow, ·⟩) := by
  intro spelled text
  have blank : Lexeme.isBlank ' ' := by decide
  have areSpelled : AreSpelled spelled text.toList := by
    have numeral : IsSpelled (.integer 7) ['0', '_', '0', '7', '_'] :=
      @IsSpelled.integer 7 2 '0' _ (by decide) (by decide)
    have large : IsSpelled (.integer (2 ^ 64)) "18446744073709551616".toList :=
      @IsSpelled.integer (2 ^ 64) 0 '1' _ (by decide) (by decide)
    have identifier : IsSpelled (.identifier ['i', 'n', 'n']) ['i', 'n', 'n'] :=
      .identifier (by decide) (List.all_eq_true.mp (by decide)) (by intro word; cases word <;> decide)
    have line := AreSpelled.cons (.keyword .kwIn) blank <| .cons identifier blank <|
      .cons (.symbol .equalEqual) blank <| .cons numeral blank <|
      .cons (.string ['a', '"', '\n']) blank <| .last large
    refine Eq.mp (congrArg (AreSpelled spelled) ?_) line
    decide
  have short : text.utf8ByteSize < Span.offsetBound := by decide
  have read := (ofText_spelled spelled text .fresh areSpelled).resolve_right
    fun large => absurd large.1 (Nat.not_le_of_lt short)
  rw [Span.cutOffset_of_lt short] at read
  exact ⟨areSpelled, read.1, read.2.1⟩

end TokenList

end IncrementalFrontend
