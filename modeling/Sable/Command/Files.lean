import Sable.Config.Basic
import Sable.Source.File

/-!
# Files

What a command asks of the files around it, and two questions that it answers with them: which
sources lie below a path, and which configuration holds. The answers do not depend on where the
files are, so that a tree held in memory serves as well as a disk.

## Main definitions

* `Files`: what can be asked, in a monad.
* `Files.collectSources`: the sources that a path names.
* `Files.discoverConfig`: the configuration that holds.
-/
namespace Sable

structure Files (m : Type → Type) where
  isFile : String → m Bool
  isDirectory : String → m Bool
  /-- The text of a file; there is none if it is not a text. -/
  read : String → m (Option String)
  /-- The files below a directory, each with the path of the directory in front. -/
  below : String → m (List String)

namespace Path

/-- The path of `name` below `path`. -/
def join (path name : String) : String :=
  if path.endsWith "/" then path ++ name else path ++ "/" ++ name

/-- The names that make up a path. -/
def components (path : String) : List String := path.splitOn "/"

def fileName (path : String) : String := (components path).getLastD ""

/-- The order of names: that of the first characters that differ. -/
def nameBefore (a b : String) : Bool := a.toList.lex b.toList fun c d => c.toNat < d.toNat

/-- The order of paths: that of the first names that differ. -/
def le (a b : String) : Bool := !(components b).lex (components a) nameBefore

/-- The name of a source ends in `.sbl` and has something in front of that. -/
def isSource (path : String) : Bool :=
  let name := fileName path
  name.endsWith ".sbl" && name ≠ ".sbl"

end Path

namespace Files

variable {m : Type → Type} [Monad m]

/-- A file by itself, whatever its name; else the sources below a directory, in the order of their
paths. -/
def collectSources (files : Files m) (path : String) : m (List String) := do
  if ← files.isFile path then return [path]
  return ((← files.below path).filter Path.isSource).mergeSort Path.le

def readSource (files : Files m) (path : String) : m (Option SourceFile) := do
  return (← files.read path).map (⟨path, ·⟩)

def loadConfig (files : Files m) (path : String) : m (Except ConfigError Config) := do
  match ← files.read path with
  | none => return .error (.unreadable path)
  | some text =>
    match Config.parse? text with
    | none => return .error .malformed
    | some config => return .ok config

/-- The configuration at a given path, or else at `sable.toml`, if that is a file. -/
def discoverConfig (files : Files m) (path : Option String) :
    m (Except ConfigError Config) := do
  match path with
  | some path => files.loadConfig path
  | none =>
    if ← files.isFile "./sable.toml" then files.loadConfig "./sable.toml"
    else return .ok {}

end Files

end Sable
