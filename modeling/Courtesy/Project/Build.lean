import Courtesy.Files.Work
import Courtesy.Fingerprint
import Courtesy.Project.Config
import Courtesy.Project.Report
import Courtesy.Translation

/-!
# Builds

A build translates every source below the source directories of a project. The program of a source
goes to `cs/` in the output directory and its report to `reports/`, both under the name of the
source without its directory. A source that does not translate leaves only its report and fails the
build in the end; a file that cannot be read or written fails it at once.
-/

namespace Courtesy

open Courtesy.Text

namespace Source

/-- What the name of a source ends in. -/
def extension : String := ".polite"

/-- The name of the directories that are taken for output wherever they stand. -/
def outputName : String := "generated"

/-- Whether a path is that of a source. -/
def isPath (path : String) : Bool := endsWith extension path

/-- The name of a source without its directory and its extension. -/
def stem (path : String) : String := dropTail extension (Path.base path)

/-- The paths of the sources below a directory, in the order of a walk through it. Nothing below an
output directory is a source. -/
def below (t : Tree) (p : Place) (root : String) : List String :=
  (t.below p).filterMap fun (q, e) =>
    let path := Path.join root ("/".intercalate q)
    if e ≠ .folder && !q.dropLast.contains outputName && isPath path then some path else none

/-- The sources that a path leads to: the path itself if it is a source, or the sources below it if
it is a directory and not an output directory. There are none at a path where there is nothing. -/
def find (d : Disk) (root : String) : Except FileFault (List String) :=
  match d.lookup root with
  | .error .missing => .ok []
  | .error cause => .error ⟨"lstat", root, cause⟩
  | .ok (_, .file _) => .ok (if isPath root then [root] else [])
  | .ok (p, .folder) => .ok (if Path.base root == outputName then [] else below d.tree p root)

end Source

/-- Why a build failed. -/
inductive BuildFault where
  | walk (root : String) (cause : FileFault)
  | read (source : String) (cause : FileFault)
  | save (source : String) (cause : SaveFault)
  | untranslated (sources : List String) (total : Nat)
  deriving DecidableEq, Repr

def BuildFault.message : BuildFault → String
  | walk root cause => s!"walk {root}: {cause.message}"
  | read source cause => s!"failed to build {source}: read {source}: {cause.message}"
  | save source cause => s!"failed to build {source}: {cause.message}"
  | untranslated sources total =>
    let names := ", ".intercalate sources
    s!"{sources.length} of {total} files failed to translate: {names}"

namespace Build

/-- Where the program of a source goes. -/
def programPath (c : Config) (root source : String) : String :=
  Path.join (c.outputPath root) ("cs/" ++ Source.stem source ++ ".cs")

/-- Where the report on a source goes. -/
def reportPath (c : Config) (root source : String) : String :=
  Path.join (c.outputPath root) ("reports/" ++ Source.stem source ++ ".yaml")

/-- The report on a source. -/
def report (c : Config) (root id source content : String) : Report :=
  let run := translate content
  { id := id, source := source, fingerprint := fingerprint content, ok := run.succeeded
    output := if run.succeeded then programPath c root source else ""
    diagnostics := run.diagnostics }

/-- Builds one source. -/
def file (c : Config) (root id source : String) : Work BuildFault Report := do
  let content ← Work.read source (.read source)
  let r := report c root id source content
  if r.ok then
    Work.save (programPath c root source) ((translate content).code c.options) (.save source)
  Work.save (reportPath c root source) r.render (.save source)
  return r

/-- All sources of a project, one source directory after the other. -/
def sources (d : Disk) (c : Config) (root : String) : Except BuildFault (List String) := do
  let found ← (c.sourcePaths root).mapM fun dir =>
    match Source.find d dir with
    | .ok paths => Except.ok paths
    | .error cause => .error (.walk dir cause)
  return found.flatten

/-- Builds sources one after the other; the `i`-th has the id `ids i`. -/
def files (c : Config) (root : String) (ids : Nat → String) (paths : List String) :
    Work BuildFault (List Report) :=
  paths.zipIdx.mapM fun (path, i) => file c root (ids i) path

/-- Builds the project in a directory. -/
def run (c : Config) (root : String) (ids : Nat → String) : Work BuildFault Unit := do
  match sources (← get) c root with
  | .error fault => throw fault
  | .ok paths =>
    let reports ← files c root ids paths
    let failed := reports.filter (!·.ok)
    unless failed.isEmpty do
      throw (.untranslated (failed.map (·.source)) paths.length)

end Build

end Courtesy
