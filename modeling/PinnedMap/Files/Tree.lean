import PinnedMap.Files.Path

/-! Files and directories. A path is followed name by name, and every name, the empty one after a
last slash included, needs a directory to be looked up in. -/
namespace PinnedMap

inductive Entry where
  | file (bytes : List UInt8)
  | directory
deriving Repr, DecidableEq, Inhabited

abbrev Files := String → Option Entry

def Entry.text? : Entry → Option String
  | .file bytes => String.fromUTF8? ⟨bytes.toArray⟩
  | .directory => none

def Entry.ofText (text : String) : Entry := .file text.toUTF8.toList

def Files.text? (files : Files) (path : String) : Option String := (files path).bind Entry.text?

def Files.bytes? (files : Files) (path : String) : Option (List UInt8) :=
  match files path with
  | some (.file bytes) => some bytes
  | _ => none

/-- The names on the way down from the root directory, the last of them first. -/
abbrev Place := List String

structure FileTree where
  entries : List (Place × Entry) := []
  workingDirectory : Place := []
deriving Repr, DecidableEq

namespace FileTree

def entry? (tree : FileTree) (place : Place) : Option Entry :=
  if place = [] then some .directory else tree.entries.lookup place

/-- Follows names from a place. Nothing has a name that is too long. -/
def follow (tree : FileTree) : (start : Place) → (names : List String) → Option Place
  | here, [] => some here
  | here, name :: names =>
    if tree.entry? here ≠ some .directory then none
    else if name = "" || name = "." then follow tree here names
    else if name = ".." then follow tree here.tail names
    else if Path.longestName < name.utf8ByteSize then none
    else follow tree (name :: here) names

def start (tree : FileTree) (path : String) : Place := if Path.isAbsolute path then [] else tree.workingDirectory

def locate (tree : FileTree) (path : String) : Option Place :=
  if Path.isUsable path then tree.follow (tree.start path) (Path.names path) else none

def files (tree : FileTree) : Files := fun path => (tree.locate path).bind tree.entry?

def put (tree : FileTree) (place : Place) (entry : Entry) : FileTree :=
  { tree with entries := (place,entry) :: tree.entries }

def makeDirectory (tree : FileTree) : (place : Place) → FileTree
  | [] => tree
  | name :: parent =>
    let tree := tree.makeDirectory parent
    if (tree.entry? (name :: parent)).isSome then tree else tree.put (name :: parent) .directory

def add (tree : FileTree) (place : Place) (entry : Entry) : FileTree :=
  match place, entry with
  | _, .directory => tree.makeDirectory place
  | [], _ => tree
  | _ :: parent, _ => (tree.makeDirectory parent).put place entry

def target? (tree : FileTree) (path : String) : Option Place := do
  let name := String.ofList (Path.fileName path)
  guard (name ≠ "" && name ≠ "." && name ≠ "..")
  let place ← tree.locate path
  guard (tree.entry? place ≠ some .directory)
  return place

def write (tree : FileTree) (path : String) (bytes : List UInt8) : Option FileTree :=
  (tree.target? path).map fun place => tree.put place (.file bytes)

end FileTree
end PinnedMap
