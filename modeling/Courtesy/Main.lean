import Courtesy.Command
import Courtesy.Uuid
import Courtesy.Watch.Watcher

/-!
# The program

Reads the working directory into a disk, does the command that the arguments ask for and carries the
changes out. A project that is watched is read again and again; what differs from the last reading
is handled as an event.
-/

namespace Courtesy.Program

/-- Adds what a directory entry holds to a tree. Files that are no text are left out. -/
partial def addEntry (t : Tree) (parent : Place) (e : IO.FS.DirEntry) : IO Tree := do
  let p := parent ++ [e.fileName]
  match (← e.path.symlinkMetadata).type with
  | .dir => (← e.path.readDir).foldlM (fun t e => addEntry t p e) (t.put p .folder)
  | .file =>
    match ← (IO.FS.readFile e.path).toBaseIO with
    | .ok text => return t.put p (.file text)
    | .error _ => return t
  | _ => return t

/-- Adds the file or the directory that an argument names, as far as it is outside of what has been
read. -/
def addArgument (here : Place) (t : Tree) (arg : String) : IO Tree := do
  let p := Path.cleanElements (Path.join ("/" ++ "/".intercalate here) arg)
  let p := if Path.isRooted arg then Path.cleanElements arg else p
  let path := (← IO.currentDir) / arg
  if (t.get? p).isSome || arg == "" then return t
  else if ← path.isDir then return t.putFolders p
  else
    match ← (IO.FS.readFile path).toBaseIO with
    | .ok text => return t.putFile p text
    | .error _ =>
      match path.parent with
      | some parent => return if ← parent.isDir then t.putFolders p.dropLast else t
      | none => return t

/-- The disk as it is now. -/
def readDisk (args : List String) : IO Disk := do
  let root ← IO.currentDir
  let here := Path.cleanElements root.toString
  let t ← (← root.readDir).foldlM (fun t e => addEntry t here e) ((Tree.mk []).putFolders here)
  return ⟨← args.foldlM (addArgument here) t, here⟩

/-- Carries out what differs between two trees. -/
def writeChanges (old new : Tree) : IO Unit := do
  let root ← IO.currentDir
  for (p, e) in Tree.changes old new [] do
    let path := root / ("/" ++ "/".intercalate p)
    match e with
    | .folder => IO.FS.createDirAll path
    | .file content => IO.FS.writeFile path content

/-- Ids that no other run has. -/
def newIds : IO (Nat → String) := do
  let bytes ← IO.getRandomBytes 16
  let seed := bytes.toList.foldl (fun n b => n * 256 + b.toNat) 0
  return fun i => Uuid.ofNat (seed + i)

/-- Writes the entries that a level lets through to the error output. -/
def writeLog (c : Config) (log : List Log.Entry) : IO Unit := do
  let threshold := (Log.Level.ofName? c.log.level).getD .info
  for e in log do
    if threshold.isEnabled e.level then
      let fields := e.fields.map fun (key, value) => match value with
        | .text s => s!" {key}={Text.quote s}"
        | .number n => s!" {key}={n}"
        | .flag b => s!" {key}={b}"
      IO.eprintln (e.level.name ++ " " ++ e.message ++ String.join fields)

/-- Builds a project because of a source. -/
def rebuild (c : Config) (path : String) (d : Disk) : IO Disk := do
  let (outcome, built) := (Build.run c "." (← newIds)).perform d
  writeChanges d.tree built.tree
  writeLog c (Watcher.buildLog path (match outcome with
    | .ok _ => none
    | .error fault => some fault.message))
  return built

/-- Watches a project until it is interrupted. -/
partial def watch (c : Config) (w : Watcher) (d : Disk) : IO Unit := do
  IO.sleep 500
  let now ← readDisk []
  let w := (Tree.losses d.tree now.tree []).foldl Watcher.forget w
  let events := (Tree.changes d.tree now.tree []).filterMap fun (p, _) => w.pathOf? p
  let (w, due) := events.foldl (fun (w, due) path =>
    let (w, changed) := Watcher.handle w now path
    (w, if changed then due ++ [path] else due)) (w, [])
  watch c w (← due.foldlM (fun d path => rebuild c path d) now)

/-- Does what is left to do after a command and answers the exit code. There is no listening socket
here, so a server cannot start. -/
def finish (d : Disk) (reply : Reply) : IO UInt32 := do
  match reply.pending with
  | .nothing => return UInt32.ofNat reply.exit
  | .watching c =>
    let (w, log) := Watcher.start d (c.sourcePaths ".")
    writeLog c log
    watch c w d
    return 0
  | .serving c =>
    IO.println s!"Error starting dev server: dev server: listen tcp :{c.server.port}: not supported"
    return 1

end Courtesy.Program

open Courtesy in
def main (args : List String) : IO UInt32 := do
  let d ← Program.readDisk args
  let (reply, d') := (Command.run (← Program.newIds) (Command.ofArgs args)).run d
  Program.writeChanges d.tree d'.tree
  IO.print reply.output
  Program.finish d' reply
