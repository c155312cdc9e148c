import IncrementalFrontend.Diagnostic.Terminal
import IncrementalFrontend.Text.Numeral

/-!
The command line: a command, then options and files in any order. An option's value is the next
argument whatever it looks like; of several values for one option the last counts.
-/
namespace IncrementalFrontend

inductive Command where
  | parse (parent : Option String)
  | check
deriving DecidableEq, Repr

structure Options where
  command : Command
  files : List String
  repeats : Nat
  color : ColorMode
  errorLimit : Option Nat
deriving DecidableEq, Repr

inductive ArgumentError where
  | missingCommand
  | unknownCommand (word : String)
  | unknownOption (option : String)
  | missingValue (option : String)
  | invalidValue (option value : String)
  | noFiles
deriving DecidableEq, Repr

def ArgumentError.message : ArgumentError → String
  | missingCommand => "missing command"
  | unknownCommand word => "unknown command `" ++ word ++ "`"
  | unknownOption option => "unknown option `" ++ option ++ "`"
  | missingValue option => "option `" ++ option ++ "` needs a value"
  | invalidValue option value => "invalid value `" ++ value ++ "` for `" ++ option ++ "`"
  | noFiles => "no input files"

namespace Options

def usage : String :=
  "Usage: quarry <command> [options] <files...>\n\n" ++
  "Commands:\n" ++
  "  parse [--parent <path>] <files...>   Print the tree outline and diagnostics\n" ++
  "  check <files...>                     Report diagnostics only\n\n" ++
  "Options:\n" ++
  "  --repeat <n>                Re-run the queries for n revisions and print cache statistics\n" ++
  "  --color=<auto|always|never> Colorize diagnostics\n" ++
  "  --error-limit <n>           Print at most n errors (0 = no limit)"

def wordBound : Nat := 4294967296
def longBound : Nat := 18446744073709551616

def readRepeats (value : String) : Except ArgumentError Nat :=
  match Text.readNumeral wordBound value with
  | some (count + 1) => .ok (count + 1)
  | _ => .error (.invalidValue "--repeat" value)

def readErrorLimit (value : String) : Except ArgumentError Nat :=
  match Text.readNumeral longBound value with
  | some limit => .ok limit
  | none => .error (.invalidValue "--error-limit" value)

def readColor : String → Except ArgumentError ColorMode
  | "auto" => .ok .auto
  | "always" => .ok .always
  | "never" => .ok .never
  | value => .error (.invalidValue "--color" value)

def afterBeginning? (beginning text : String) : Option String :=
  if beginning.toList.isPrefixOf text.toList then
    some (String.ofList (text.toList.drop beginning.length))
  else none

/-- Reads options and files from the left; the first fault ends the reading. Only the `parse`
command has the option `--parent`. -/
def readArguments (options : Options) : List String → Except ArgumentError Options
  | [] => .ok options
  | argument :: rest =>
    if argument = "--parent" ∧ options.command ≠ .check then
      match rest with
      | [] => .error (.missingValue argument)
      | value :: rest => readArguments { options with command := .parse (some value) } rest
    else if argument = "--repeat" then
      match rest with
      | [] => .error (.missingValue argument)
      | value :: rest => do readArguments { options with repeats := ← readRepeats value } rest
    else if argument = "--error-limit" then
      match rest with
      | [] => .error (.missingValue argument)
      | value :: rest => do
        readArguments { options with errorLimit := some (← readErrorLimit value) } rest
    else
      match afterBeginning? "--color=" argument with
      | some value => do readArguments { options with color := ← readColor value } rest
      | none =>
        if argument.toList.head? = some '-' then .error (.unknownOption argument)
        else readArguments { options with files := options.files ++ [argument] } rest

def ofCommand (command : Command) : Options :=
  { command, files := [], repeats := 1, color := .auto, errorLimit := none }

def ofArguments : List String → Except ArgumentError Options
  | [] => .error .missingCommand
  | word :: rest => do
    let command ← match word with
      | "parse" => .ok (.parse none)
      | "check" => .ok .check
      | _ => .error (.unknownCommand word)
    let options ← readArguments (ofCommand command) rest
    if options.files = [] then .error .noFiles else .ok options

end Options

end IncrementalFrontend
