import IncrementalFrontend.Name.Interner

/-!
Compilation units. A unit is named after its file: the last part of the path, without what follows
its last dot.
-/
namespace IncrementalFrontend

structure SourceUnit where
  path : Name
  name : Name
  parent : Name
deriving DecidableEq, Repr

namespace SourceUnit

def pathParts (path : String) : List String :=
  (path.splitOn "/").filter fun part => part ≠ "" && part ≠ "."

def fileName? (path : String) : Option String :=
  match (pathParts path).getLast? with
  | some part => if part = ".." then none else some part
  | none => none

/-- A file name without its last dot and what follows. A dot at the very start does not count. -/
def stem (fileName : String) : String :=
  let reversed := fileName.toList.reverse
  match (reversed.dropWhile (· ≠ '.')).tail with
  | [] => fileName
  | kept => String.ofList kept.reverse

def nameOfPath (path : String) : String :=
  ((fileName? path).map stem).getD path

def ofPath (path parent : Name) (names : Interner) : SourceUnit × Interner :=
  let (name, names) := names.intern (nameOfPath (names.lookup path))
  (⟨path, name, parent⟩, names)

def symbolPath (unit : SourceUnit) (names : Interner) : String :=
  if unit.parent.isEmpty then names.lookup unit.name
  else names.lookup unit.parent ++ "." ++ names.lookup unit.name

end SourceUnit

end IncrementalFrontend
