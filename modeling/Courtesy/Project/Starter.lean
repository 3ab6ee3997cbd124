import Courtesy.Files.Work
import Courtesy.Project.Config
import Courtesy.Project.Example

/-!
# New projects

A new project has a configuration, a description, two programs and the directories that a build
writes to.
-/

namespace Courtesy.Starter

open Courtesy.Text

/-- Why a project could not be set up. -/
inductive Fault where
  | project (cause : FileFault)
  | folder (path : String) (cause : FileFault)
  | file (name : String) (cause : FileFault)
  deriving DecidableEq, Repr

def Fault.message : Fault → String
  | project cause => s!"failed to create project directory: {cause.message}"
  | folder path cause => s!"failed to create directory {path}: {cause.message}"
  | file name cause => s!"failed to write {name}: {cause.message}"

/-- The configuration of a new project, which states the defaults. -/
def configText (name : String) : String :=
  unlines [
    "name: " ++ name,
    "source_dirs:",
    "  - src",
    "output_dir: generated",
    "target:",
    "  namespace: PoliteCodeGenerated",
    "  class: Program",
    "log:",
    "  level: info",
    "  development: false",
    "server:",
    "  port: 8080",
    "  rate_limit: 5",
    "  burst: 10"]

/-- What a new project says about itself. -/
def aboutText (name : String) : String :=
  unlines [
    "# " ++ name,
    "",
    "A PoliteCode project. Programs live in `src/` and are translated to C#.",
    "",
    "```",
    "politecode build       # translate every .polite file into generated/cs",
    "politecode watch       # rebuild whenever a source file changes",
    "politecode serve       # dev server with a translate API on :8080",
    "politecode templates   # list the bundled example programs",
    "```",
    "",
    "Every program needs an entry point:",
    "",
    "```",
    "please define function void main() \x7b",
    "    thank you for printing \"Hello, World!\"",
    "\x7d",
    "```",
    "",
    "Diagnostics for each file are written to `generated/reports/`."]

/-- The files that version control leaves out. -/
def ignoredText : String := unlines ["generated/", "*.log"]

/-- The directories of a new project. -/
def folders : List String := ["src", "generated/cs", "generated/reports"]

/-- The files of a new project. -/
def files (name : String) : List (String × String) :=
  [(Config.fileName, configText name),
   ("README.md", aboutText name),
   (".gitignore", ignoredText),
   ("src/hello.polite", Example.hello.source),
   ("src/greeting.polite", Example.greeting.source)]

/-- Sets up a project in a directory. The last element of the path is the name of the project. -/
def create (path : String) : Work Fault Unit := do
  Work.makeFolders path .project
  for folder in folders do
    let dir := Path.join path folder
    Work.makeFolders dir (.folder dir)
  for (name, content) in files (Path.base path) do
    Work.write (Path.join path name) content (.file name)

end Courtesy.Starter
