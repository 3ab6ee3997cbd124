import Courtesy.Files.Path
import Courtesy.Files.Tree

/-!
# Disks

A disk is a tree with a working directory. Paths are looked up name by name: every name in front of
the last has to be a directory, `.` stays and `..` goes up. Operations name the path they failed at
and why.
-/

namespace Courtesy

open Courtesy.Text

structure Disk where
  tree : Tree
  here : Place
  deriving DecidableEq, Repr, Inhabited

/-- Why a path cannot be used. -/
inductive PathFault where
  | missing
  | notFolder
  | isFolder
  | taken
  | nameTooLong
  | notAllowed
  deriving DecidableEq, Repr

def PathFault.message : PathFault → String
  | missing => "no such file or directory"
  | notFolder => "not a directory"
  | isFolder => "is a directory"
  | taken => "file exists"
  | nameTooLong => "file name too long"
  | notAllowed => "invalid argument"

/-- A failed operation: what was done, at which path, and why it failed. -/
structure FileFault where
  action : String
  path : String
  cause : PathFault
  deriving DecidableEq, Repr

def FileFault.message (f : FileFault) : String := s!"{f.action} {f.path}: {f.cause.message}"

namespace Disk

/-- The longest name and the longest path, in bytes. -/
def maxName : Nat := 255
def maxPath : Nat := 4095

/-- The names of a path, slashes and empty names left out. -/
def names (path : String) : List String := (Path.elements path).filter (· != "")

/-- Whether a path ends in a slash and so can only name a directory. -/
def namesFolder (path : String) : Bool := endsWith "/" path

/-- One name further from a place. -/
def step (t : Tree) (p : Place) (name : String) : Except PathFault Place :=
  match t.get? p with
  | some .folder =>
    if name == "." then .ok p
    else if name == ".." then .ok p.dropLast
    else if name.utf8ByteSize > maxName then .error .nameTooLong
    else if (t.get? (p ++ [name])).isSome then .ok (p ++ [name])
    else .error .missing
  | some (.file _) => .error .notFolder
  | none => .error .missing

/-- Follows names from a place. -/
def follow (t : Tree) : Place → List String → Except PathFault Place
  | p, [] => .ok p
  | p, name :: rest => do follow t (← step t p name) rest

/-- Where the names of a path start; refuses a path that can name nothing. -/
def origin (d : Disk) (path : String) : Except PathFault Place :=
  if path == "" then .error .missing
  else if path.toList.contains '\x00' then .error .notAllowed
  else if path.utf8ByteSize > maxPath then .error .nameTooLong
  else .ok (if Path.isRooted path then [] else d.here)

/-- The place and the entry that a path names. -/
def lookup (d : Disk) (path : String) : Except PathFault (Place × Entry) := do
  let p ← follow d.tree (← d.origin path) (names path)
  match d.tree.get? p with
  | none => .error .missing
  | some .folder => return (p, .folder)
  | some (.file content) =>
    if namesFolder path then .error .notFolder else return (p, .file content)

/-- The directory in which the last name of a path stands, and that name; no name when the path ends
in `.` or `..` or has no names at all. -/
def lookupParent (d : Disk) (path : String) : Except PathFault (Place × Option String) := do
  let start ← d.origin path
  match (names path).getLast? with
  | none => return (start, none)
  | some last =>
    let p ← follow d.tree start (names path).dropLast
    match d.tree.get? p with
    | some .folder =>
      if last == "." || last == ".." then return (p, none)
      else if last.utf8ByteSize > maxName then .error .nameTooLong
      else return (p, some last)
    | _ => .error .notFolder

/-- Whether a path names a directory. -/
def isFolder (d : Disk) (path : String) : Bool :=
  match d.lookup path with
  | .ok (_, .folder) => true
  | _ => false

/-- The content of a file. -/
def read (d : Disk) (path : String) : Except FileFault String :=
  match d.lookup path with
  | .error cause => .error ⟨"open", path, cause⟩
  | .ok (_, .folder) => .error ⟨"read", path, .isFolder⟩
  | .ok (_, .file content) => .ok content

/-- Creates a file or overwrites it. -/
def write (d : Disk) (path content : String) : Except FileFault Disk :=
  match d.lookupParent path with
  | .error cause => .error ⟨"open", path, cause⟩
  | .ok (_, none) => .error ⟨"open", path, .isFolder⟩
  | .ok (p, some name) =>
    if namesFolder path || d.tree.get? (p ++ [name]) = some .folder then
      .error ⟨"open", path, .isFolder⟩
    else .ok { d with tree := d.tree.put (p ++ [name]) (.file content) }

/-- Makes one directory. -/
def makeFolder (d : Disk) (path : String) : Except FileFault Disk :=
  match d.lookupParent path with
  | .error cause => .error ⟨"mkdir", path, cause⟩
  | .ok (_, none) => .error ⟨"mkdir", path, .taken⟩
  | .ok (p, some name) =>
    if (d.tree.get? (p ++ [name])).isSome then .error ⟨"mkdir", path, .taken⟩
    else .ok { d with tree := d.tree.put (p ++ [name]) .folder }

/-- The path in front of the last name of a path, without the one slash between them. -/
def parentPath (path : String) : String :=
  String.ofList (Path.front (Path.dropSlashes path)).toList.dropLast

/-- Makes the last directory of a path after those above it, if none of them failed; one that is
there is left alone. -/
def makeLast (path : String) : Disk × Option FileFault → Disk × Option FileFault
  | (d, some fault) => (d, some fault)
  | (d, none) =>
    match d.makeFolder path with
    | .ok d => (d, none)
    | .error fault => if d.isFolder path then (d, none) else (d, some fault)

/-- Makes a directory with all the directories that lead to it. The directories that could be made
stay even when a later one fails. The first argument bounds the number of names. -/
def makeFoldersWithin : Nat → Disk → String → Disk × Option FileFault
  | 0, d, _ => (d, none)
  | fuel + 1, d, path =>
    match d.lookup path with
    | .ok (_, .folder) => (d, none)
    | .ok (_, .file _) => (d, some ⟨"mkdir", path, .notFolder⟩)
    | .error _ =>
      let parent := parentPath path
      makeLast path (if parent == "" then (d, none) else makeFoldersWithin fuel d parent)

/-- Makes a directory with all the directories that lead to it. -/
def makeFolders (d : Disk) (path : String) : Disk × Option FileFault :=
  makeFoldersWithin (path.length + 1) d path

/-- The name of the directory that a path leads to, by the text of the path alone. -/
def folderName (d : Disk) (path : String) : String :=
  Path.base (Path.join ("/" ++ "/".intercalate d.here) path)

end Disk

end Courtesy
