/-!
A small file system below one working directory, with the failures that reading a path can meet.
Nothing is known about what lies outside the working directory, except that its parents and the
root are directories.
-/
namespace IncrementalFrontend

inductive ReadError where
  | notFound
  | notDirectory
  | isDirectory
  | nameTooLong
  | notText
  | nulInPath
deriving DecidableEq, Repr

def ReadError.message : ReadError → String
  | notFound => "No such file or directory (os error 2)"
  | notDirectory => "Not a directory (os error 20)"
  | isDirectory => "Is a directory (os error 21)"
  | nameTooLong => "File name too long (os error 36)"
  | notText => "stream did not contain valid UTF-8"
  | nulInPath => "file name contained an unexpected NUL byte"

inductive Disk.Item where
  /-- A file with its text; without one if its bytes are no text. -/
  | file (text : Option String)
  | directory
deriving DecidableEq

structure Disk where
  items : List (List String × Disk.Item)
deriving DecidableEq

namespace Disk

def empty : Disk := ⟨[]⟩

def item? (disk : Disk) (place : List String) : Option Item :=
  if place = [] then some .directory else (disk.items.find? (·.1 == place)).map (·.2)

def nameLimit : Nat := 255
def pathLimit : Nat := 4096

inductive Place where
  | inside (reversed : List String)
  | outside

def enter (disk : Disk) (place : Place) (part : String) : Except ReadError Place :=
  match place with
  | .outside =>
    if part = "" ∨ part = "." ∨ part = ".." then .ok .outside
    else if nameLimit < part.utf8ByteSize then .error .nameTooLong
    else .error .notFound
  | .inside reversed =>
    match disk.item? reversed.reverse with
    | none => .error .notFound
    | some (.file _) => .error .notDirectory
    | some .directory =>
      if part = "" ∨ part = "." then .ok (.inside reversed)
      else if part = ".." then
        match reversed with
        | [] => .ok .outside
        | _ :: outer => .ok (.inside outer)
      else if nameLimit < part.utf8ByteSize then .error .nameTooLong
      else if (disk.item? (part :: reversed).reverse).isNone then .error .notFound
      else .ok (.inside (part :: reversed))

def walk (disk : Disk) (path : String) : Except ReadError Place :=
  let parts := path.splitOn "/"
  if path.contains '\x00' then .error .nulInPath
  else if path = "" then .error .notFound
  else if pathLimit ≤ path.utf8ByteSize then .error .nameTooLong
  else if path.startsWith "/" then parts.foldlM disk.enter .outside
  else parts.foldlM disk.enter (.inside [])

def read (disk : Disk) (path : String) : Except ReadError String := do
  match ← disk.walk path with
  | .outside => .error .isDirectory
  | .inside reversed =>
    match disk.item? reversed.reverse with
    | none => .error .notFound
    | some .directory => .error .isDirectory
    | some (.file none) => .error .notText
    | some (.file (some text)) => .ok text

def partsOf (path : String) : List String :=
  (path.splitOn "/").filter fun part => part ≠ "" && part ≠ "."

def putItem (disk : Disk) (place : List String) (item : Item) : Option Disk :=
  match disk.item? place, item with
  | none, _ => some ⟨(place, item) :: disk.items⟩
  | some .directory, .directory => some disk
  | some (.file _), .file _ =>
    some ⟨disk.items.map fun (other, old) => if other = place then (other, item) else (other, old)⟩
  | _, _ => none

/-- Puts an item at a path, with the directories on the way. Nothing changes if a file stands in
the way. -/
def write (disk : Disk) (path : String) (item : Item) : Disk :=
  let parts := partsOf path
  let outer := (List.range parts.length).map parts.take
  ((outer.foldlM (fun (disk : Disk) place => disk.putItem place .directory) disk).bind
    fun disk => disk.putItem parts item).getD disk

def remove (disk : Disk) (path : String) : Disk :=
  match partsOf path with
  | [] => disk
  | parts => ⟨disk.items.filter fun (place, _) => !parts.isPrefixOf place⟩

end Disk

end IncrementalFrontend
