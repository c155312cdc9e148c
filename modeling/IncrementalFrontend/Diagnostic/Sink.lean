import IncrementalFrontend.Diagnostic.Basic

/-!
The sink keeps the diagnostics delivered to a session in order. It drops and merges none; a limit
on what is shown is a matter of display.
-/
namespace IncrementalFrontend

inductive ErrorGuarantee where
  | reported
deriving DecidableEq, Repr

namespace ErrorGuarantee

def ofCount (errors : Nat) : Option ErrorGuarantee :=
  if 0 < errors then some .reported else none

def message : ErrorGuarantee → String
  | reported => "error(s) emitted"

end ErrorGuarantee

def Diagnostic.guarantee (diagnostic : Diagnostic) : Option ErrorGuarantee :=
  if diagnostic.isError then some .reported else none

structure Sink where
  diagnostics : List Diagnostic
deriving DecidableEq

namespace Sink

def empty : Sink := ⟨[]⟩

def append (sink : Sink) (diagnostics : List Diagnostic) : Sink :=
  ⟨sink.diagnostics ++ diagnostics⟩

def report (sink : Sink) (diagnostic : Diagnostic) : Sink :=
  sink.append [diagnostic]

def size (sink : Sink) : Nat :=
  sink.diagnostics.length

def isEmpty (sink : Sink) : Bool :=
  sink.diagnostics.isEmpty

def errorCount (sink : Sink) : Nat :=
  sink.diagnostics.countP Diagnostic.isError

def warningCount (sink : Sink) : Nat :=
  sink.diagnostics.countP Diagnostic.isWarning

@[simp] theorem size_append (sink : Sink) (diagnostics : List Diagnostic) :
    (sink.append diagnostics).size = sink.size + diagnostics.length := by
  simp [append, size]

@[simp] theorem errorCount_append (sink : Sink) (diagnostics : List Diagnostic) :
    (sink.append diagnostics).errorCount =
      sink.errorCount + diagnostics.countP Diagnostic.isError := by
  simp [append, errorCount]

@[simp] theorem warningCount_append (sink : Sink) (diagnostics : List Diagnostic) :
    (sink.append diagnostics).warningCount =
      sink.warningCount + diagnostics.countP Diagnostic.isWarning := by
  simp [append, warningCount]

theorem append_append (sink : Sink) (first second : List Diagnostic) :
    (sink.append first).append second = sink.append (first ++ second) := by
  simp [append]

end Sink

end IncrementalFrontend
