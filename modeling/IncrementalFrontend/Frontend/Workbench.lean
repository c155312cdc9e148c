import IncrementalFrontend.Diagnostic.Terminal
import IncrementalFrontend.Frontend.Session
import IncrementalFrontend.Source.Disk

/-!
A workbench drives a session by hand: it keeps values under names, owns the files that the session
reads, and changes scripts between requests. Values under a name are held, so that a collection
spares them.
-/
namespace IncrementalFrontend

inductive Handle where
  | number (shared : Shared Int64)
  | contents (shared : Shared FileContents)
  | tree (shared : Shared SyntaxTree)
  | linkage (shared : Shared Linkage)
  | type (shared : Shared Composite)

namespace Handle

def identity : Handle → Nat
  | number shared => shared.identity
  | contents shared => shared.identity
  | tree shared => shared.identity
  | linkage shared => shared.identity
  | type shared => shared.identity

def isSame (a b : Handle) : Bool :=
  a.identity == b.identity

/-- Whether two handles of one sort have equal values. Types are equal only if they are the same. -/
def isEqual : Handle → Handle → Bool
  | number a, number b => a.value == b.value
  | contents a, contents b =>
    match a.value, b.value with
    | .ok a, .ok b => a == b
    | .error a, .error b => a == b
    | _, _ => false
  | tree a, tree b => a.value == b.value
  | linkage a, linkage b => a.value == b.value
  | type a, type b => a.identity == b.identity
  | _, _ => false

end Handle

structure Workbench where
  session : Session
  handles : List (String × Handle)
  disk : Disk
  errorLimit : Nat

namespace Workbench

def start (scripts : List ((ScriptKind × String) × Script)) (collectsOnAdvance : Bool)
    (errorLimit : Nat) : Workbench :=
  let session := Session.start (fun path => (Disk.empty.read path).mapError ReadError.message)
    collectsOnAdvance
  { session := session.updateWorld fun world => { world with scripts }
    handles := [], disk := .empty, errorLimit }

def names (bench : Workbench) : Interner :=
  bench.session.names

def setSession (bench : Workbench) (session : Session) : Workbench :=
  { bench with session }

def setHandles (bench : Workbench) (handles : List (String × Handle)) : Workbench :=
  { bench with
    handles
    session := { bench.session with handles := handles.map (·.2.identity) } }

def handle? (bench : Workbench) (name : String) : Option Handle :=
  (bench.handles.find? (·.1 == name)).map (·.2)

def release (bench : Workbench) (name : String) : Bool × Workbench :=
  ((bench.handle? name).isSome, bench.setHandles (bench.handles.filter (·.1 != name)))

def hold (bench : Workbench) (name : String) (handle : Handle) : Workbench :=
  bench.setHandles ((name, handle) :: bench.handles.filter (·.1 != name))

def aliases (bench : Workbench) (identity : Nat) : List String :=
  ((bench.handles.filter (·.2.identity == identity)).map (·.1)).mergeSort (· ≤ ·)

def setDisk (bench : Workbench) (disk : Disk) : Workbench :=
  { bench with
    disk
    session := bench.session.updateWorld fun world =>
      { world with files := fun path => (disk.read path).mapError ReadError.message } }

def setScript (bench : Workbench) (kind : ScriptKind) (key : String) (script : Script) : Workbench :=
  bench.setSession (bench.session.updateWorld fun world =>
    { world with
      scripts := ((kind, key), script) :: world.scripts.filter (·.1 != (kind, key)) })

def setExternal (bench : Workbench) (key : String) (value : Int64) : Workbench :=
  bench.setSession (bench.session.updateWorld fun world =>
    { world with externals := (key, value) :: world.externals.filter (·.1 != key) })

def takeStarted (bench : Workbench) : List (ScriptKind × String) × Workbench :=
  (bench.session.world.started,
    bench.setSession (bench.session.updateWorld fun world => { world with started := [] }))

def render (bench : Workbench) (mode : ColorMode) (isTerminal : Bool) : String :=
  Terminal.showReport ⟨mode.isColored isTerminal, bench.errorLimit⟩ bench.names
    bench.session.sink.diagnostics

/-- A type in names: other types appear as the names that hold them. -/
structure TypeView where
  type : Composite
  generic : Option (List String)
  root : Option (List String)
  substitutions : List (Name × List String)
  aliases : List String

def viewType (bench : Workbench) (shared : Shared Composite) : TypeView :=
  let type := shared.value
  { type
    generic := type.generic.map bench.aliases
    root := (type.root? bench.session.type?).map bench.aliases
    substitutions := type.substitutions.bindings.map fun (parameter, bound) =>
      (parameter, bench.aliases bound)
    aliases := bench.aliases shared.identity }

end Workbench

end IncrementalFrontend
