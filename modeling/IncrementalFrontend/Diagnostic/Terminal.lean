import IncrementalFrontend.Diagnostic.Basic
import IncrementalFrontend.Name.Interner

/-!
Diagnostics as a terminal shows them: one line for each, a line for each of its notes, and a summary
of the counts. Errors past a limit are not shown, other diagnostics always are.
-/
namespace IncrementalFrontend

inductive ColorMode where
  | auto
  | always
  | never
deriving DecidableEq, Repr

def ColorMode.isColored (mode : ColorMode) (isTerminal : Bool) : Bool :=
  match mode with
  | auto => isTerminal
  | always => true
  | never => false

namespace Terminal

structure Style where
  isColored : Bool
  errorLimit : Nat

def defaultErrorLimit : Nat := 20

def boldRed : String := "\x1b[1;31m"
def boldYellow : String := "\x1b[1;33m"
def boldCyan : String := "\x1b[1;36m"
def bold : String := "\x1b[1m"
def plain : String := "\x1b[0m"

def severityColor : Severity → String
  | .error => boldRed
  | .warning => boldYellow
  | .note => boldCyan

def paint (style : Style) (color text : String) : String :=
  if style.isColored then color ++ text ++ plain else text

def showPlace (names : Interner) (location : Location) : String :=
  let path := names.lookup location.path
  if location.first.isUnknown then path else path ++ ":" ++ location.first.label

def showNote (style : Style) (note : String) : String :=
  "  " ++ paint style boldCyan "note" ++ ": " ++ note ++ "\n"

def showDiagnostic (style : Style) (names : Interner) (diagnostic : Diagnostic) : String :=
  let header := diagnostic.severity.text ++ "[" ++ diagnostic.code.text ++ "]"
  showPlace names diagnostic.location ++ ": " ++
    paint style (severityColor diagnostic.severity) header ++ ": " ++
    paint style bold diagnostic.message ++ "\n" ++
    String.join (diagnostic.notes.map (showNote style))

/-- The diagnostics left when errors beyond the first `room` are dropped. -/
def keepErrors (room : Nat) : List Diagnostic → List Diagnostic
  | [] => []
  | diagnostic :: rest =>
    if diagnostic.isError then
      match room with
      | 0 => keepErrors 0 rest
      | room + 1 => diagnostic :: keepErrors room rest
    else diagnostic :: keepErrors room rest

theorem keepErrors_of_countP_le {room : Nat} {diagnostics : List Diagnostic}
    (few : diagnostics.countP Diagnostic.isError ≤ room) :
    keepErrors room diagnostics = diagnostics := by
  induction diagnostics generalizing room with
  | nil => rfl
  | cons diagnostic rest ih =>
    unfold keepErrors
    by_cases isError : diagnostic.isError
    · simp only [List.countP_cons, isError] at few
      cases room with
      | zero => simp at few
      | succ room => simp [isError, ih (by simpa using few)]
    · simp [isError, ih (by simpa [List.countP_cons, isError] using few)]

theorem countP_keepErrors (room : Nat) (diagnostics : List Diagnostic) :
    (keepErrors room diagnostics).countP Diagnostic.isError =
      min room (diagnostics.countP Diagnostic.isError) := by
  induction diagnostics generalizing room with
  | nil => simp [keepErrors]
  | cons diagnostic rest ih =>
    unfold keepErrors
    by_cases isError : diagnostic.isError
    · cases room <;> simp [isError, ih]
    · simp [isError, ih]

def shown (style : Style) (diagnostics : List Diagnostic) : List Diagnostic :=
  if style.errorLimit = 0 then diagnostics else keepErrors style.errorLimit diagnostics

def showDiagnostics (style : Style) (names : Interner) (diagnostics : List Diagnostic) : String :=
  String.join ((shown style diagnostics).map (showDiagnostic style names))

def counted (count : Nat) (noun : String) : String :=
  toString count ++ " " ++ noun ++ if count = 1 then "" else "s"

def showSummary (errors warnings : Nat) : String :=
  let parts :=
    (if errors = 0 then [] else [counted errors "error"]) ++
      (if warnings = 0 then [] else [counted warnings "warning"])
  if parts = [] then "" else ", ".intercalate parts ++ " emitted\n"

def showReport (style : Style) (names : Interner) (diagnostics : List Diagnostic) : String :=
  showDiagnostics style names diagnostics ++
    showSummary (diagnostics.countP Diagnostic.isError) (diagnostics.countP Diagnostic.isWarning)

end Terminal

end IncrementalFrontend
