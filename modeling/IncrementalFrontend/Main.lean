import IncrementalFrontend.CommandLine.Run
import IncrementalFrontend.Source.Disk

/-!
The command line program: reads the listed files, runs the command, and prints what it says.
-/
namespace IncrementalFrontend

namespace CommandLine

/-- The failure with a number of the operating system, which may come negated in 32 bits. -/
def failureOfNumber? (number : UInt32) : Option ReadError :=
  match min number.toNat (Options.wordBound - number.toNat) with
  | 2 => some .notFound
  | 20 => some .notDirectory
  | 21 => some .isDirectory
  | 36 => some .nameTooLong
  | _ => none

def readFailure (error : IO.Error) : String :=
  let known := match error with
    | .noFileOrDirectory _ number _ | .inappropriateType _ number _
    | .invalidArgument _ number _ => failureOfNumber? number
    | _ => none
  (known.map ReadError.message).getD (toString error)

def readContents (path : String) : IO FileContents := do
  if path.contains '\x00' then
    return .error ReadError.nulInPath.message
  try
    match String.fromUTF8? (← IO.FS.readBinFile path) with
    | some text => return .ok text
    | none => return .error ReadError.notText.message
  catch error =>
    return .error (readFailure error)

def readAll (paths : List String) : IO (String → FileContents) := do
  let table ← paths.mapM fun path => return (path, ← readContents path)
  return fun path =>
    ((table.find? (·.1 == path)).map (·.2)).getD (.error ReadError.notFound.message)

def outcome (arguments : List String) : IO Outcome := do
  match Options.ofArguments arguments with
  | .error error => return .ofArgumentError error
  | .ok options =>
    let isTerminal ← (← IO.getStderr).isTty
    return options.run isTerminal (← readAll options.files)

end CommandLine

end IncrementalFrontend

open IncrementalFrontend in
def main (arguments : List String) : IO UInt32 := do
  let outcome ← CommandLine.outcome arguments
  IO.print outcome.output
  IO.eprint outcome.errors
  return UInt32.ofNat outcome.status
