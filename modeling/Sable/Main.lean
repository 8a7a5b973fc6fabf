import Sable.Command.Run

/-!
# The program

Carries out its command line on the files of the disk.
-/
namespace Sable.Disk

/-- The root of a listing of the directory at a path. -/
def entryAt (path : String) : IO.FS.DirEntry := { root := path, fileName := "" }

/-- What stands at a path; links are followed. -/
def kindOf? (path : String) : IO (Option IO.FS.FileType) := do
  match ← (entryAt path).root.metadata.toBaseIO with
  | .ok data => return some data.type
  | .error _ => return none

def isFile (path : String) : IO Bool := return (← kindOf? path) == some .file

def isDirectory (path : String) : IO Bool := return (← kindOf? path) == some .dir

def read (path : String) : IO (Option String) := do
  match ← (IO.FS.readBinFile path).toBaseIO with
  | .ok bytes => return String.fromUTF8? bytes
  | .error _ => return none

/-- The files below a directory. Links are not followed, and what cannot be read is left out. -/
partial def below (path : String) : IO (List String) := do
  match ← (entryAt path).root.readDir.toBaseIO with
  | .error _ => return []
  | .ok entries =>
    let found ← entries.toList.mapM fun entry => do
      let inner := Path.join path entry.fileName
      match ← entry.path.symlinkMetadata.toBaseIO with
      | .ok data =>
        match data.type with
        | .dir => below inner
        | .file => return [inner]
        | _ => return []
      | .error _ => return []
    return found.flatten

def files : Files IO := { isFile, isDirectory, read, below }

end Sable.Disk

def main (args : List String) : IO UInt32 := do
  let outcome ← Sable.runArguments Sable.Disk.files args
  for line in outcome.complaints do
    IO.eprintln line
  IO.print outcome.output
  return outcome.status.toUInt32
