import Sable.Command.Files
import Sable.OrderedMap

/-!
# File trees

Files that are held in memory. A path is resolved name by name from the root; each name but the
last has to be that of a directory, `.` stays where it is, and `..` goes back.

## Main definitions

* `FileTree`: files and directories by their route.
* `FileTree.resolve?`: the route that a path names.
* `FileTree.files`: the answers of a tree.
-/
namespace Sable

/-- The names from the root to a file or a directory. -/
abbrev Route := List String

inductive FileEntry
  /-- A file with its text, if it is one. -/
  | file (text : Option String)
  | directory
  deriving DecidableEq, Inhabited

structure FileTree where
  entries : OrderedMap Route FileEntry := .empty
  deriving Inhabited

namespace FileTree

/-- Puts an entry at a path; if the path ends in a slash, it is that of a directory. -/
def add (t : FileTree) (path : String) (text : Option String) : FileTree :=
  ⟨t.entries.insert ((Path.components path).filter (· ≠ ""))
    (if path.endsWith "/" then .directory else .file text)⟩

/-- The text of the file at a route. -/
def file? (t : FileTree) (route : Route) : Option (Option String) :=
  match t.entries.get? route with
  | some (.file text) => some text
  | _ => none

/-- Every route on the way to an entry is that of a directory. -/
def isDirectoryAt (t : FileTree) (route : Route) : Bool :=
  route.isEmpty || t.entries.entries.any fun (p, e) =>
    route.isPrefixOf p && (e == .directory || p.length ≠ route.length)

/-- One name farther. -/
def enter? (t : FileTree) (route : Route) (name : String) : Option Route :=
  if !t.isDirectoryAt route then none
  else if name = "" ∨ name = "." then some route
  else if name = ".." then if route.isEmpty then none else some route.dropLast
  else some (route ++ [name])

/-- The route that a path names, whether or not anything is there. No path begins at the root of
all files, and the empty one names nothing. -/
def resolve? (t : FileTree) (path : String) : Option Route :=
  match Path.components path with
  | "" :: _ => none
  | names => names.foldlM t.enter? []

def isFile (t : FileTree) (path : String) : Bool :=
  (t.resolve? path).any fun route => (t.file? route).isSome

def isDirectory (t : FileTree) (path : String) : Bool := (t.resolve? path).any t.isDirectoryAt

def read (t : FileTree) (path : String) : Option String :=
  (t.resolve? path).bind fun route => (t.file? route).join

/-- The files below a route, without the names of the route. -/
def belowRoute (t : FileTree) (route : Route) : List Route :=
  t.entries.entries.filterMap fun (p, e) =>
    if e ≠ .directory ∧ route.isPrefixOf p ∧ p ≠ route then some (p.drop route.length) else none

def below (t : FileTree) (path : String) : List String :=
  match t.resolve? path with
  | some route => (t.belowRoute route).map fun names => Path.join path ("/".intercalate names)
  | none => []

def files (t : FileTree) : Files Id where
  isFile := t.isFile
  isDirectory := t.isDirectory
  read := t.read
  below := t.below

end FileTree

end Sable
