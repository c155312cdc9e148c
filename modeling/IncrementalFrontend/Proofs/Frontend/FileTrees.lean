import IncrementalFrontend.Proofs.CommandLine.Rounds
import IncrementalFrontend.Proofs.Parser.Trailing

/-!
What files are parsed to in one session. The names that the session knows decide the tree of a text,
however many of them were known when it was parsed, and blanks behind the text do not matter.
-/
namespace IncrementalFrontend

/-- Known names are known by the same texts whenever that was. -/
theorem Interner.matches_of_known {names earlier earlier' : Interner} {name : Name}
    (known : ∃ text, earlier.find? text = some name)
    (known' : ∃ text, earlier'.find? text = some name) (keeps : earlier.Keeps names)
    (keeps' : earlier'.Keeps names) : earlier.Matches earlier' name name := by
  obtain ⟨text, found⟩ := known
  exact ⟨text, found, keeps'.find?_eq known' (keeps _ _ found)⟩

namespace FileKey

variable {key : FileKey} {names later : Interner} {contents : FileContents} {tree tree' : SyntaxTree}
  {text blanks : String}

theorem keeps_parsed (key : FileKey) (contents : FileContents) (names : Interner) :
    names.Keeps (key.parsed contents names).2 := by
  have unit : names.Keeps (SourceUnit.ofPath key.path key.parent names).2 := names.keeps_intern _
  cases contents with
  | ok text => exact unit.trans (TokenList.keeps_ofText _ _)
  | error message => exact unit

structure IsKnown (key : FileKey) (names : Interner) : Prop where
  path : ∃ text, names.find? text = some key.path
  parent : ∃ text, names.find? text = some key.parent

theorem IsKnown.mono (known : key.IsKnown names) (keeps : names.Keeps later) : key.IsKnown later where
  path := known.path.imp fun _ found => keeps _ _ found
  parent := known.parent.imp fun _ found => keeps _ _ found

def Parses (key : FileKey) (names : Interner) (contents : FileContents) (tree : SyntaxTree) : Prop :=
  ∃ earlier, key.IsKnown earlier ∧ (key.parsed contents earlier).2.Keeps names ∧
    (key.parsed contents earlier).1.tree = tree

theorem Parses.mono (parses : key.Parses names contents tree) (keeps : names.Keeps later) :
    key.Parses later contents tree := by
  obtain ⟨earlier, known, kept, same⟩ := parses
  exact ⟨earlier, known, kept.trans keeps, same⟩

/-- Blanks behind a text that lexes without errors and does not end in a line comment do not change
what it is parsed to in one session, whatever was parsed in between. -/
theorem Parses.eq_of_append_blank (parses : key.Parses names (.ok text) tree)
    (parses' : key.Parses names (.ok (text ++ blanks)) tree')
    (fine : (TokenList.ofText text .fresh).1.errors = []) (outside : ¬ EndsInLineComment text)
    (blank : ∀ c ∈ blanks.toList, Lexeme.isBlank c) : tree' = tree := by
  obtain ⟨earlier, known, keeps, rfl⟩ := parses
  obtain ⟨earlier', known', keeps', rfl⟩ := parses'
  have before := (key.keeps_parsed (.ok text) earlier).trans keeps
  have before' := (key.keeps_parsed (.ok (text ++ blanks)) earlier').trans keeps'
  have units := SourceUnit.renamed_ofPath
    (Interner.matches_of_known known.path known'.path before before')
    (Interner.matches_of_known known.parent known'.parent before before')
  unfold parsed at keeps keeps' ⊢
  dsimp only at keeps keeps' ⊢
  generalize SourceUnit.ofPath key.path key.parent earlier = named at units keeps ⊢
  generalize SourceUnit.ofPath key.path key.parent earlier' = named' at units keeps' ⊢
  have fine' := (TokenList.errors_ofText text named'.2 .fresh).trans fine
  obtain ⟨trees, last⟩ := named'.1.parse_append_blank fine' outside blank
  rw [last] at keeps'
  rw [trees]
  exact ((SourceUnit.renamed_parse text units).mono keeps keeps').tree.eq_of_byText.symm

/-- In one run of names, a text with blanks behind it is parsed to the tree of the text. -/
theorem tree_parsed_append_blank (known : key.IsKnown names)
    (fine : (TokenList.ofText text .fresh).1.errors = []) (outside : ¬ EndsInLineComment text)
    (blank : ∀ c ∈ blanks.toList, Lexeme.isBlank c)
    (keeps : (key.parsed (.ok text) names).2.Keeps later) :
    (key.parsed (.ok (text ++ blanks)) later).1.tree = (key.parsed (.ok text) names).1.tree := by
  have grows := key.keeps_parsed (.ok (text ++ blanks)) later
  have known' := known.mono ((key.keeps_parsed _ _).trans keeps)
  have first : key.Parses later (.ok text) _ := ⟨names, known, keeps, rfl⟩
  exact (first.mono grows).eq_of_append_blank ⟨later, known', .refl _, rfl⟩ fine outside blank

/-- The same holds when the text with the blanks comes first. -/
theorem tree_parsed_of_append_blank (known : key.IsKnown names)
    (fine : (TokenList.ofText text .fresh).1.errors = []) (outside : ¬ EndsInLineComment text)
    (blank : ∀ c ∈ blanks.toList, Lexeme.isBlank c)
    (keeps : (key.parsed (.ok (text ++ blanks)) names).2.Keeps later) :
    (key.parsed (.ok text) later).1.tree = (key.parsed (.ok (text ++ blanks)) names).1.tree := by
  have grows := key.keeps_parsed (.ok text) later
  have known' := known.mono ((key.keeps_parsed _ _).trans keeps)
  have first : key.Parses later (.ok (text ++ blanks)) _ := ⟨names, known, keeps, rfl⟩
  have second : key.Parses _ (.ok text) _ := ⟨later, known', .refl _, rfl⟩
  exact (second.eq_of_append_blank (first.mono grows) fine outside blank).symm

end FileKey

end IncrementalFrontend
