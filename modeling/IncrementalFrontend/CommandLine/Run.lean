import IncrementalFrontend.CommandLine.Options
import IncrementalFrontend.Frontend.Session
import IncrementalFrontend.Syntax.Outline

/-!
Running a command: every file is parsed through a session, once in each revision, and the
diagnostics of the last revision are shown. Repeats change nothing but the statistics.
-/
namespace IncrementalFrontend

structure Outcome where
  status : Nat
  output : String
  errors : String
deriving DecidableEq, Repr

namespace Outcome

def success : Nat := 0
def withErrors : Nat := 1
def failure : Nat := 2

def ofArgumentError (error : ArgumentError) : Outcome :=
  ⟨failure, "", "error: " ++ error.message ++ "\n\n" ++ Options.usage ++ "\n"⟩

end Outcome

namespace Options

def showTree (tree : SyntaxTree) (names : Interner) : String :=
  tree.unit.symbolPath names ++ ":\n" ++ tree.outline names

def showCounts (session : Session) : String :=
  let counts := session.cache.counts
  s!"cache: {session.cache.size} entries, {counts.executions} executions, {counts.hits} hits, " ++
    s!"{counts.validations} validations, {counts.backdates} backdates, " ++
    s!"{counts.evictions} evictions\n"

def parseFiles (session : Session) (parent : Name) :
    List Name → Except QueryError Unit × String × Session
  | [] => (.ok (), "", session)
  | path :: rest =>
    match session.parseFile ⟨path, parent⟩ with
    | (.error error, session) => (.error error, "", session)
    | (.ok tree, session) =>
      let shown := showTree tree.value session.names
      let (result, more, session) := parseFiles session parent rest
      (result, shown ++ more, session)

def reparse (parent : Name) (paths : List Name) :
    Nat → List Diagnostic → Session → Except QueryError (List Diagnostic) × Session
  | 0, diagnostics, session => (.ok diagnostics, session)
  | count + 1, _, session =>
    match parseFiles session.advance parent paths with
    | (.error error, _, session) => (.error error, session)
    | (.ok _, _, session) =>
      let (diagnostics, session) := session.takeDiagnostics
      reparse parent paths count diagnostics session

def internAll : List String → Session → List Name × Session
  | [], session => ([], session)
  | text :: rest, session =>
    let (name, session) := session.intern text
    let (names, session) := internAll rest session
    (name :: names, session)

def openSession (options : Options) (files : String → FileContents) : Name × List Name × Session :=
  let session := Session.start files (1 < options.repeats)
  let (parent, session) := match options.command with
    | .parse (some parent) => session.intern parent
    | _ => (Name.empty, session)
  let (paths, session) := internAll options.files session
  (parent, paths, session)

def engineFailure (output : String) (error : QueryError) : Outcome :=
  ⟨Outcome.failure, output, "internal error: " ++ error.message ++ "\n"⟩

def run (options : Options) (isTerminal : Bool) (files : String → FileContents) : Outcome :=
  let (parent, paths, session) := options.openSession files
  let (result, trees, session) := parseFiles session parent paths
  let trees := if options.command = .check then "" else trees
  match result with
  | .error error => engineFailure trees error
  | .ok () =>
    let (diagnostics, session) := session.takeDiagnostics
    match reparse parent paths (options.repeats - 1) diagnostics session with
    | (.error error, _) => engineFailure trees error
    | (.ok diagnostics, session) =>
      let style : Terminal.Style :=
        ⟨options.color.isColored isTerminal, options.errorLimit.getD Terminal.defaultErrorLimit⟩
      { status :=
          if diagnostics.any Diagnostic.isError then Outcome.withErrors else Outcome.success
        output := trees ++ if 1 < options.repeats then showCounts session else ""
        errors := Terminal.showReport style session.names diagnostics }

end Options

end IncrementalFrontend
