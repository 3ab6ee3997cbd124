import Courtesy.Files.Disk

/-!
# Work on a disk

A piece of work reads and changes a disk and may fail. What it had done before it failed stays done,
so a failure carries the disk that it leaves behind.
-/

namespace Courtesy

/-- Work on a disk that answers an `α` or fails with an `ε`. -/
abbrev Work (ε α : Type) := ExceptT ε (StateM Disk) α

/-- Why a file could not be put into its directory: the directory could not be made, or the file
could not be written. -/
inductive SaveFault where
  | folder (path : String) (cause : FileFault)
  | file (path : String) (cause : FileFault)
  deriving DecidableEq, Repr

def SaveFault.message : SaveFault → String
  | folder path cause => s!"create {path}: {cause.message}"
  | file path cause => s!"write {path}: {cause.message}"

namespace Work

variable {ε α : Type}

/-- Does the work on a disk. -/
def perform (w : Work ε α) (d : Disk) : Except ε α × Disk := StateT.run (ExceptT.run w) d

/-- The content of a file. -/
def read (path : String) (fault : FileFault → ε) : Work ε String := do
  match (← get).read path with
  | .ok content => return content
  | .error cause => throw (fault cause)

/-- Creates a file or overwrites it. -/
def write (path content : String) (fault : FileFault → ε) : Work ε Unit := do
  match (← get).write path content with
  | .ok d => set d
  | .error cause => throw (fault cause)

/-- Makes a directory with all the directories that lead to it. -/
def makeFolders (path : String) (fault : FileFault → ε) : Work ε Unit := do
  let (d, failed) := (← get).makeFolders path
  set d
  match failed with
  | none => return ()
  | some cause => throw (fault cause)

/-- Writes a file into a directory that is made if it is not there. -/
def saveIn (dir path content : String) (fault : SaveFault → ε) : Work ε Unit := do
  makeFolders dir (fault ∘ .folder dir)
  write path content (fault ∘ .file path)

/-- Writes a file and makes the directory it is in. -/
def save (path content : String) (fault : SaveFault → ε) : Work ε Unit :=
  saveIn (Path.dir path) path content fault

end Work

end Courtesy
