import Courtesy.Log
import Courtesy.Project.Build
import Courtesy.Watch.Tracker

/-!
# Watching sources

A watcher has registered directories and a tracker. A change to the tree becomes an event if it
happens directly in a registered directory. The event bears the path by which the directory was
registered. A new directory is registered with everything below it, output directories excepted, and
the sources found in it count as seen. An event on a source whose content differs from what was seen
asks for a build.
-/

namespace Courtesy

/-- A registered directory and the path that stands for it in events. -/
structure Registration where
  place : Place
  label : String
  deriving DecidableEq, Repr, Inhabited

structure Watcher where
  registered : List Registration := []
  tracker : Tracker := {}
  deriving DecidableEq, Repr, Inhabited

/-- One change to the tree that happens at once. -/
inductive Change where
  | putFile (p : Place) (content : String)
  /-- A directory arrives with the files in it. -/
  | putTree (p : Place) (files : List (Place × String))
  | makeFolder (p : Place)
  /-- A file or an empty directory goes. -/
  | remove (p : Place)
  deriving DecidableEq, Repr

namespace Change

/-- The tree after a change. -/
def apply (t : Tree) : Change → Tree
  | putFile p content => t.putFile p content
  | putTree p files =>
    files.foldl (fun t (q, content) => t.putFile (p ++ q) content) ((t.remove p).putFolders p)
  | makeFolder p => t.putFolders p
  | remove p => t.remove p

/-- The place at which something appears. A directory that is already there does not
appear again. -/
def appears? (t : Tree) : Change → Option Place
  | putFile p _ | putTree p _ => some p
  | makeFolder p => if (t.get? p).isSome then none else some p
  | remove _ => none

/-- The place at which a directory ends, be it only to make room for another one. -/
def ends? : Change → Option Place
  | putTree p _ | remove p => some p
  | _ => none

end Change

namespace Watcher

/-! ## Registration -/

/-- Registers a directory; one that is registered keeps its label. -/
def register (w : Watcher) (p : Place) (label : String) : Watcher :=
  if w.registered.any (·.place = p) then w
  else { w with registered := w.registered ++ [⟨p, label⟩] }

/-- Records what a source holds now. -/
def record (w : Watcher) (d : Disk) (path : String) : Watcher :=
  { w with tracker := (w.tracker.check d path).1 }

/-- Whether an entry below a watched directory is watched: it is neither in an output directory nor
one itself. -/
def covers (q : Place) : Entry → Bool
  | .folder => !q.contains Source.outputName
  | .file _ => !q.dropLast.contains Source.outputName

/-- Takes an entry below a watched directory into account. -/
def addEntry (d : Disk) (p : Place) (dir : String) (w : Watcher) (entry : Place × Entry) :
    Watcher :=
  let path := Path.join dir ("/".intercalate entry.1)
  match entry.2 with
  | .folder => w.register (p ++ entry.1) path
  | .file _ => if Source.isPath path then w.record d path else w

/-- Registers a directory and everything below it and records the sources. A path that names a
source has that source recorded. -/
def addTree (w : Watcher) (d : Disk) (dir : String) : Watcher :=
  match d.lookup dir with
  | .error _ => w
  | .ok (_, .file _) => if Source.isPath dir then w.record d dir else w
  | .ok (p, .folder) =>
    ((d.tree.below p).filter fun (q, e) => covers q e).foldl (addEntry d p dir)
      (w.register p (Path.clean dir))

/-- A watcher of the given directories; those that are not there are skipped. -/
def start (d : Disk) (dirs : List String) : Watcher × List Log.Entry :=
  dirs.foldl (fun (w, log) dir =>
    if (d.lookup dir).isOk then (w.addTree d dir, log)
    else (w, log ++ [⟨.debug, "skipping missing source directory", [("dir", .text dir)]⟩])) ({}, [])

/-! ## Events -/

/-- The path under which a place is known, if it is directly in a registered directory. -/
def pathOf? (w : Watcher) (p : Place) : Option String := do
  let name ← p.getLast?
  let r ← w.registered.find? (·.place = p.dropLast)
  return r.label ++ "/" ++ name

/-- The watcher after a directory has ended: nothing is registered there any more. -/
def forget (w : Watcher) (p : Place) : Watcher :=
  { w with registered := w.registered.filter fun r => !p.isPrefixOf r.place }

/-- Handles the event that something appeared at a path. Answers whether a build is due. -/
def handle (w : Watcher) (d : Disk) (path : String) : Watcher × Bool :=
  if d.isFolder path then
    (if Path.base path == Source.outputName then w else w.addTree d path, false)
  else if Source.isPath path then
    let (tracker, changed) := w.tracker.check d path
    ({ w with tracker := tracker }, changed)
  else (w, false)

/-- What is logged about a build: the source that asked for it and how it went. -/
def buildLog (path : String) (failure : Option String) : List Log.Entry :=
  [⟨.info, "source changed", [("file", .text path)]⟩,
   match failure with
   | none => ⟨.info, "rebuild complete", []⟩
   | some message => ⟨.error, "build failed", [("error", .text message)]⟩]

/-- The event of a change to a tree: the watcher that sees it, and the path that appeared. -/
def observe (w : Watcher) (t : Tree) (c : Change) : Watcher × Option String :=
  let seen := (c.appears? t).bind w.pathOf?
  match c.ends? with
  | some p => (w.forget p, seen)
  | none => (w, seen)

/-- Makes a change and handles its event. Answers the path that asks for a build. -/
def step (w : Watcher) (d : Disk) (c : Change) : Watcher × Disk × Option String :=
  let (w, event) := w.observe d.tree c
  let d := { d with tree := c.apply d.tree }
  match event with
  | none => (w, d, none)
  | some path =>
    let (w, due) := w.handle d path
    (w, d, if due then some path else none)

end Watcher

end Courtesy
