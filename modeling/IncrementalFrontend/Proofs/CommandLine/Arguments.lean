import Mathlib.Algebra.Group.Nat.Defs
import Mathlib.Data.List.Forall2
import IncrementalFrontend.CommandLine.Options
import IncrementalFrontend.Proofs.Text.Numeral

/-!
The arguments that are accepted. Behind the command they split into parts, each a file or an option
with its value; of the values for one option the last counts, so parts of different kinds may
change places.
-/
namespace IncrementalFrontend

inductive Command.IsNamed : Command → String → Prop
  | parse : IsNamed (.parse none) "parse"
  | check : IsNamed .check "check"

def ColorMode.word : ColorMode → String
  | auto => "auto"
  | always => "always"
  | never => "never"

namespace Options

inductive Part where
  | file (path : String)
  | parent (path : String)
  | repeats (count : Nat)
  | errorLimit (limit : Nat)
  | color (mode : ColorMode)

namespace Part

inductive Kind where
  | file
  | parent
  | repeats
  | errorLimit
  | color

def kind : Part → Kind
  | file _ => .file
  | parent _ => .parent
  | repeats _ => .repeats
  | errorLimit _ => .errorLimit
  | color _ => .color

@[simp] def file? : Part → Option String
  | file path => some path
  | _ => none

@[simp] def parent? : Part → Option String
  | parent path => some path
  | _ => none

@[simp] def repeats? : Part → Option Nat
  | repeats count => some count
  | _ => none

@[simp] def errorLimit? : Part → Option Nat
  | errorLimit limit => some limit
  | _ => none

@[simp] def color? : Part → Option ColorMode
  | color mode => some mode
  | _ => none

def last? {α : Type} (read : Part → Option α) (parts : List Part) : Option α :=
  (parts.filterMap read).getLast?

def files (parts : List Part) : List String :=
  parts.filterMap file?

inductive IsWritten (command : Command) : Part → List String → Prop
  | file {path : String} (ordinary : path.toList.head? ≠ some '-') :
    IsWritten command (.file path) [path]
  | parent {path : String} (parses : command ≠ .check) :
    IsWritten command (.parent path) ["--parent", path]
  | repeats {count : Nat} {value : String} (numeral : Text.IsNumeral count value)
    (positive : 1 ≤ count) (bound : count < 2 ^ 32) :
    IsWritten command (.repeats count) ["--repeat", value]
  | errorLimit {limit : Nat} {value : String} (numeral : Text.IsNumeral limit value)
    (bound : limit < 2 ^ 64) : IsWritten command (.errorLimit limit) ["--error-limit", value]
  | color (mode : ColorMode) : IsWritten command (.color mode) ["--color=" ++ mode.word]

end Part

/-- The options after some parts: the files in order, and of each option the last value. -/
def after (options : Options) (parts : List Part) : Options where
  command := match options.command with
    | .parse parent => .parse ((Part.last? Part.parent? parts).or parent)
    | .check => .check
  files := options.files ++ Part.files parts
  repeats := (Part.last? Part.repeats? parts).getD options.repeats
  color := (Part.last? Part.color? parts).getD options.color
  errorLimit := (Part.last? Part.errorLimit? parts).or options.errorLimit

def AreWritten (command : Command) (parts : List Part) (arguments : List String) : Prop :=
  ∃ words, List.Forall₂ (Part.IsWritten command) parts words ∧ arguments = words.flatten

variable {options final : Options} {command : Command} {part other : Part} {parts : List Part}
  {words arguments : List String} {argument value word : String}

namespace Part

@[simp] theorem last?_nil {α : Type} (read : Part → Option α) : last? read [] = none :=
  rfl

@[simp] theorem last?_cons {α : Type} (read : Part → Option α) (part : Part) (parts : List Part) :
    last? read (part :: parts) = (last? read parts).or (read part) := by
  unfold last?
  rw [List.filterMap_cons]
  cases read part with
  | none => simp
  | some value =>
    rw [List.getLast?_cons]
    cases (parts.filterMap read).getLast? <;> rfl

@[simp] theorem files_nil : files [] = [] :=
  rfl

@[simp] theorem files_cons (part : Part) (parts : List Part) :
    files (part :: parts) = part.file?.toList ++ files parts := by
  unfold files
  rw [List.filterMap_cons]
  cases part.file? <;> rfl

end Part

@[simp] theorem after_nil (options : Options) : options.after [] = options := by
  cases options with
  | mk command => cases command <;> simp [after]

/-- Parts are taken up one at a time. -/
theorem after_cons (options : Options) (part : Part) (parts : List Part) :
    options.after (part :: parts) = (options.after [part]).after parts := by
  unfold after
  cases options.command <;> simp [Option.or_assoc, Option.getD_or]

theorem after_append (options : Options) (front back : List Part) :
    options.after (front ++ back) = (options.after front).after back := by
  induction front generalizing options with
  | nil => rw [after_nil, List.nil_append]
  | cons part front ih => rw [List.cons_append, after_cons, ih, ← after_cons]

theorem command_after_eq_check_iff :
    (options.after parts).command = .check ↔ options.command = .check := by
  cases same : options.command <;> simp [after, same]

theorem after_comm (apart : other.kind ≠ part.kind) :
    (options.after [part]).after [other] = (options.after [other]).after [part] := by
  -- Only a file changes the files, so of two parts one leaves each field as it is.
  cases part <;> cases other <;> first
    | exact absurd rfl apart
    | cases same : options.command <;> simp [after, same]

/-- A part may change places with parts of other kinds. -/
theorem after_swap {passed : List Part} (apart : ∀ other ∈ passed, other.kind ≠ part.kind) :
    options.after (part :: passed) = options.after (passed ++ [part]) := by
  induction passed generalizing options with
  | nil => rfl
  | cons other passed ih =>
    calc options.after (part :: other :: passed)
        = ((options.after [part]).after [other]).after passed := by
          rw [after_cons, after_cons (options.after [part])]
      _ = ((options.after [other]).after [part]).after passed := by
          rw [after_comm (apart other List.mem_cons_self)]
      _ = (options.after [other]).after (part :: passed) := (after_cons _ _ _).symm
      _ = options.after (other :: passed ++ [part]) := by
          rw [ih fun third member => apart third (List.mem_cons_of_mem _ member), List.cons_append,
            ← after_cons]

theorem after_file (path : String) :
    options.after [.file path] = { options with files := options.files ++ [path] } := by
  cases same : options.command <;> simp [after, same]

theorem after_parent (parses : options.command ≠ .check) (path : String) :
    options.after [.parent path] = { options with command := .parse (some path) } := by
  cases same : options.command with
  | check => exact absurd same parses
  | parse parent => simp [after, same]

theorem after_repeats (count : Nat) :
    options.after [.repeats count] = { options with repeats := count } := by
  cases same : options.command <;> simp [after, same]

theorem after_errorLimit (limit : Nat) :
    options.after [.errorLimit limit] = { options with errorLimit := some limit } := by
  cases same : options.command <;> simp [after, same]

theorem after_color (mode : ColorMode) :
    options.after [.color mode] = { options with color := mode } := by
  cases same : options.command <;> simp [after, same]

theorem readRepeats_eq_ok_iff {count : Nat} : readRepeats value = .ok count ↔
    Text.IsNumeral count value ∧ 1 ≤ count ∧ count < 2 ^ 32 := by
  have read : readRepeats value = .ok count ↔
      Text.readNumeral wordBound value = some count ∧ 1 ≤ count := by
    unfold readRepeats
    rcases Text.readNumeral wordBound value with _ | _ | number <;> simp <;> omega
  rw [read, Text.readNumeral_eq_some_iff, and_assoc, and_comm (a := count < _)]
  rfl

theorem readErrorLimit_eq_ok_iff {limit : Nat} :
    readErrorLimit value = .ok limit ↔ Text.IsNumeral limit value ∧ limit < 2 ^ 64 := by
  have read : readErrorLimit value = .ok limit ↔ Text.readNumeral longBound value = some limit := by
    unfold readErrorLimit
    cases Text.readNumeral longBound value <;> simp
  rw [read, Text.readNumeral_eq_some_iff]
  rfl

theorem readColor_eq_ok_iff {mode : ColorMode} : readColor value = .ok mode ↔ value = mode.word := by
  unfold readColor
  constructor
  · intro read
    split at read <;> cases read <;> rfl
  · rintro rfl
    cases mode <;> rfl

theorem afterBeginning?_eq_some_iff {beginning text rest : String} :
    afterBeginning? beginning text = some rest ↔ text = beginning ++ rest := by
  simp only [afterBeginning?, Option.ite_none_right_eq_some, Option.some.injEq,
    List.isPrefixOf_iff_prefix]
  constructor
  · rintro ⟨⟨tail, same⟩, rfl⟩
    apply String.toList_inj.mp
    simp [← same, ← String.length_toList]
  · rintro rfl
    simp [← String.length_toList]

theorem afterBeginning?_ordinary (ordinary : argument.toList.head? ≠ some '-') :
    afterBeginning? "--color=" argument = none := by
  refine Option.eq_none_iff_forall_ne_some.mpr fun rest begins => ordinary ?_
  have spelled : argument.toList = "--color=".toList ++ rest.toList := by
    rw [afterBeginning?_eq_some_iff.mp begins, String.toList_append]
  exact (congrArg List.head? spelled).trans rfl

/-- An argument that is no option with a value behind it. -/
theorem readArguments_single (parent : argument ≠ "--parent") (repeats : argument ≠ "--repeat")
    (limit : argument ≠ "--error-limit") (rest : List String) :
    readArguments options (argument :: rest) =
      match afterBeginning? "--color=" argument with
      | some value => do readArguments { options with color := ← readColor value } rest
      | none =>
        if argument.toList.head? = some '-' then .error (.unknownOption argument)
        else readArguments { options with files := options.files ++ [argument] } rest := by
  rw [readArguments.eq_def]
  dsimp only
  refine (if_neg fun same => parent same.1).trans ((if_neg repeats).trans ((if_neg limit).trans ?_))
  cases afterBeginning? "--color=" argument <;> rfl

/-- Reading a written part is taking it up. -/
theorem readArguments_written (written : part.IsWritten options.command words) (rest : List String) :
    readArguments options (words ++ rest) = readArguments (options.after [part]) rest := by
  cases written with
  | @file path ordinary =>
    have plain (option : String) (dash : option.toList.head? = some '-') : path ≠ option :=
      fun same => ordinary (same ▸ dash)
    rw [after_file, List.singleton_append, readArguments_single (plain "--parent" rfl)
      (plain "--repeat" rfl) (plain "--error-limit" rfl), afterBeginning?_ordinary ordinary]
    exact if_neg ordinary
  | parent parses =>
    rw [after_parent parses]
    exact if_pos ⟨rfl, parses⟩
  | repeats numeral positive bound =>
    have read := readRepeats_eq_ok_iff.mpr ⟨numeral, positive, bound⟩
    simp [readArguments, read, after_repeats, bind, Except.bind]
  | errorLimit numeral bound =>
    have read := readErrorLimit_eq_ok_iff.mpr ⟨numeral, bound⟩
    simp [readArguments, read, after_errorLimit, bind, Except.bind]
  | color mode =>
    have begins : afterBeginning? "--color=" ("--color=" ++ mode.word) = some mode.word :=
      afterBeginning?_eq_some_iff.mpr rfl
    have plain (option : String) (other : afterBeginning? "--color=" option = none) :
        "--color=" ++ mode.word ≠ option := fun same => by simp [← same, begins] at other
    rw [after_color, List.singleton_append, readArguments_single (plain "--parent" (by decide))
      (plain "--repeat" (by decide)) (plain "--error-limit" (by decide)), begins]
    dsimp only
    rw [readColor_eq_ok_iff.mpr rfl]
    rfl

theorem exists_of_bind_eq_ok {ε α β : Type} {first : Except ε α} {next : α → Except ε β} {result : β}
    (ended : (first >>= next) = .ok result) :
    ∃ value, first = .ok value ∧ next value = .ok result := by
  cases first with
  | error fault => cases ended
  | ok value => exact ⟨value, rfl, ended⟩

theorem Part.IsWritten.congr {later : Command} (same : later = .check ↔ command = .check)
    (written : part.IsWritten command words) : part.IsWritten later words := by
  cases written with
  | file ordinary => exact .file ordinary
  | parent parses => exact .parent (mt same.mp parses)
  | repeats numeral positive bound => exact .repeats numeral positive bound
  | errorLimit numeral bound => exact .errorLimit numeral bound
  | color mode => exact .color mode

theorem AreWritten.cons (written : part.IsWritten options.command words)
    (rest : AreWritten (options.after [part]).command parts arguments) :
    AreWritten options.command (part :: parts) (words ++ arguments) := by
  obtain ⟨groups, all, rfl⟩ := rest
  exact ⟨words :: groups,
    .cons written (all.imp fun _ _ => .congr command_after_eq_check_iff.symm), rfl⟩

theorem exists_written_step (written : part.IsWritten options.command words)
    (rest : ∃ parts, AreWritten (options.after [part]).command parts arguments ∧
      final = (options.after [part]).after parts) :
    ∃ parts, AreWritten options.command parts (words ++ arguments) ∧ final = options.after parts := by
  obtain ⟨parts, all, rfl⟩ := rest
  exact ⟨part :: parts, .cons written all, (after_cons _ _ _).symm⟩

/-- Whatever is read without a fault is written parts. -/
theorem exists_written (read : readArguments options arguments = .ok final) :
    ∃ parts, AreWritten options.command parts arguments ∧ final = options.after parts := by
  fun_induction readArguments options arguments with
  | case1 options =>
    cases read
    exact ⟨[], ⟨[], .nil, rfl⟩, (after_nil _).symm⟩
  | case2 | case4 | case6 => cases read
  | case3 options argument isParent path rest ih =>
    rw [isParent.1]
    refine exists_written_step (.parent isParent.2) ?_
    rw [after_parent isParent.2]
    exact ih read
  | case5 options value rest _ ih =>
    obtain ⟨count, counted, read⟩ := exists_of_bind_eq_ok read
    obtain ⟨numeral, positive, bound⟩ := readRepeats_eq_ok_iff.mp counted
    refine exists_written_step (.repeats numeral positive bound) ?_
    rw [after_repeats]
    exact ih _ read
  | case7 options value rest _ _ ih =>
    obtain ⟨limit, counted, read⟩ := exists_of_bind_eq_ok read
    obtain ⟨numeral, bound⟩ := readErrorLimit_eq_ok_iff.mp counted
    refine exists_written_step (.errorLimit numeral bound) ?_
    rw [after_errorLimit]
    exact ih _ read
  | case8 options argument rest _ _ _ value begins ih =>
    obtain ⟨mode, named, read⟩ := exists_of_bind_eq_ok read
    rw [afterBeginning?_eq_some_iff.mp begins, readColor_eq_ok_iff.mp named]
    refine exists_written_step (.color mode) ?_
    rw [after_color]
    exact ih _ read
  | case9 => cases read
  | case10 options argument rest _ _ _ _ ordinary ih =>
    refine exists_written_step (.file ordinary) ?_
    rw [after_file]
    exact ih read

theorem AreWritten.append {back : List Part} {others : List String}
    (first : AreWritten command parts arguments) (second : AreWritten command back others) :
    AreWritten command (parts ++ back) (arguments ++ others) := by
  obtain ⟨groups, all, rfl⟩ := first
  obtain ⟨rest, every, rfl⟩ := second
  exact ⟨groups ++ rest, List.rel_append all every, List.flatten_append.symm⟩

theorem Part.IsWritten.areWritten (written : part.IsWritten command words) :
    AreWritten command [part] words :=
  ⟨[words], .cons written .nil, by simp⟩

/-- Reading what some parts write is taking them up; what follows is read after that. -/
theorem AreWritten.readArguments_eq (written : AreWritten command parts arguments)
    (same : options.command = .check ↔ command = .check) (rest : List String) :
    readArguments options (arguments ++ rest) = readArguments (options.after parts) rest := by
  obtain ⟨groups, all, rfl⟩ := written
  induction all generalizing options with
  | nil => rw [after_nil]; rfl
  | @cons part words parts groups written all ih =>
    calc readArguments options ((words :: groups).flatten ++ rest)
        = readArguments options (words ++ (groups.flatten ++ rest)) := by simp
      _ = readArguments (options.after [part]) (groups.flatten ++ rest) :=
          readArguments_written (written.congr same) _
      _ = readArguments (options.after (part :: parts)) rest := by
          rw [ih (command_after_eq_check_iff.trans same), ← after_cons]

def finish (options : Options) : Except ArgumentError Options :=
  if options.files = [] then .error .noFiles else .ok options

theorem ofArguments_named (named : command.IsNamed word) (rest : List String) :
    ofArguments (word :: rest) = readArguments (ofCommand command) rest >>= finish := by
  cases named <;> rfl

theorem AreWritten.ofArguments_eq (named : command.IsNamed word)
    (written : AreWritten command parts arguments) (rest : List String) :
    ofArguments (word :: (arguments ++ rest)) =
      readArguments ((ofCommand command).after parts) rest >>= finish := by
  rw [ofArguments_named named, written.readArguments_eq Iff.rfl]

theorem exists_named (accepted : ofArguments arguments = .ok options) :
    ∃ word command rest, arguments = word :: rest ∧ Command.IsNamed command word := by
  cases arguments with
  | nil => cases accepted
  | cons word rest =>
    by_cases parse : word = "parse"
    · exact ⟨word, .parse none, rest, rfl, parse ▸ .parse⟩
    by_cases check : word = "check"
    · exact ⟨word, .check, rest, rfl, check ▸ .check⟩
    · rw [ofArguments] at accepted
      · cases accepted
      · exact parse
      · exact check

theorem mem_files_iff {path : String} : path ∈ Part.files parts ↔ .file path ∈ parts := by
  refine List.mem_filterMap.trans ⟨?_, fun member => ⟨_, member, rfl⟩⟩
  rintro ⟨part, member, same⟩
  cases part <;> cases same
  exact member

theorem finish_after_eq_ok_iff : finish ((ofCommand command).after parts) = .ok options ↔
    (∃ path, .file path ∈ parts) ∧ options = (ofCommand command).after parts := by
  have files : ((ofCommand command).after parts).files = [] ↔ ¬ ∃ path, .file path ∈ parts := by
    have same : ((ofCommand command).after parts).files = Part.files parts := rfl
    simp [same, List.eq_nil_iff_forall_not_mem, mem_files_iff]
  unfold finish
  split
  · next none => exact ⟨nofun, fun some => absurd some.1 (files.mp none)⟩
  · next some =>
    rw [Except.ok.injEq, eq_comm]
    exact ⟨fun same => ⟨not_not.mp (mt files.mpr some), same⟩, And.right⟩

/-- The arguments that are accepted are those written part by part, a file among them, and they
give the files in order and of each option the last value. Parts of different kinds may change
places: whatever follows, the outcome is the same. -/
theorem ofArguments_accepts_written_parts :
    (∀ arguments options, ofArguments arguments = .ok options ↔
      ∃ word command rest parts, arguments = word :: rest ∧ command.IsNamed word ∧
        AreWritten command parts rest ∧ (∃ path, .file path ∈ parts) ∧
        options = (ofCommand command).after parts) ∧
    ∀ word command before (moved : Part) passed prior group others rest, command.IsNamed word →
      AreWritten command before prior → moved.IsWritten command group →
      AreWritten command passed others → (∀ other ∈ passed, other.kind ≠ moved.kind) →
      ofArguments (word :: (prior ++ group ++ others ++ rest)) =
        ofArguments (word :: (prior ++ others ++ group ++ rest)) := by
  refine ⟨fun arguments options => ⟨fun accepted => ?_, ?_⟩, ?_⟩
  · obtain ⟨word, command, rest, rfl, named⟩ := exists_named accepted
    rw [ofArguments_named named] at accepted
    obtain ⟨final, read, finished⟩ := exists_of_bind_eq_ok accepted
    obtain ⟨parts, written, rfl⟩ := exists_written read
    obtain ⟨file, rfl⟩ := finish_after_eq_ok_iff.mp finished
    exact ⟨word, command, rest, parts, rfl, named, written, file, rfl⟩
  · rintro ⟨word, command, rest, parts, rfl, named, written, file, rfl⟩
    have read := written.ofArguments_eq named []
    rw [List.append_nil] at read
    rw [read]
    exact finish_after_eq_ok_iff.mpr ⟨file, rfl⟩
  · intro word command before moved passed prior group others rest named first written all apart
    have single := written.areWritten
    rw [((first.append single).append all).ofArguments_eq named,
      ((first.append all).append single).ofArguments_eq named, List.append_assoc, List.append_assoc,
      after_append, after_append (ofCommand command) before, List.singleton_append, after_swap apart]

theorem ofArguments_accepts_repeats_behind_files :
    ofArguments ["parse", "--parent", "--repeat", "a", "", "--repeat", "+03"] =
        .ok ⟨.parse (some "--repeat"), ["a", ""], 3, .auto, none⟩ ∧
      ofArguments ["parse", "--repeat", "+03", "--parent", "--repeat", "a", "--parent"] =
        ofArguments ["parse", "--parent", "--repeat", "a", "--repeat", "+03", "--parent"] := by
  have parent : Part.IsWritten (.parse none) (.parent "--repeat") ["--parent", "--repeat"] :=
    .parent nofun
  have file : Part.IsWritten (.parse none) (.file "a") ["a"] := .file (by decide)
  have blank : Part.IsWritten (.parse none) (.file "") [""] := .file (by decide)
  have repeats : Part.IsWritten (.parse none) (.repeats 3) ["--repeat", "+03"] :=
    .repeats ⟨['+'], 1, .inr rfl, by decide⟩ (by decide) (by decide)
  constructor
  · exact (ofArguments_accepts_written_parts.1 _ _).mpr ⟨"parse", .parse none, _,
      [.parent "--repeat", .file "a", .file "", .repeats 3], rfl, .parse,
      ⟨_, .cons parent (.cons file (.cons blank (.cons repeats .nil))), rfl⟩, ⟨"a", by simp⟩, rfl⟩
  · exact ofArguments_accepts_written_parts.2 "parse" (.parse none) [] (.repeats 3)
      [.parent "--repeat", .file "a"] [] _ _ ["--parent"] .parse ⟨[], .nil, rfl⟩ repeats
      ⟨_, .cons parent (.cons file .nil), rfl⟩ (by simp [Part.kind])

end Options

end IncrementalFrontend
