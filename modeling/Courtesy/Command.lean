import Courtesy.Diagnostic.Excerpt
import Courtesy.Log
import Courtesy.Project.Build
import Courtesy.Project.Scaffold
import Courtesy.Project.Starter

/-!
# Commands

A command is what the arguments of the program ask for. It is done on a disk and answers what is
printed, the exit code and whether there is more to do: a project that is watched or served goes on
until it is interrupted.
-/

namespace Courtesy

open Courtesy.Text

inductive Command where
  | help
  | unknown (name : String)
  /-- Too few arguments: the line says how the command is used. -/
  | usage (line : String)
  | init (path : String)
  /-- Without an output path the program is printed. -/
  | translate (source output : String)
  | build
  | watch
  | serve
  | function (name type : String)
  | program (name : String)
  | description (path : String)
  | unknownScaffold (name : String)
  | examples
  | showExample (name : String)
  | version
  deriving DecidableEq, Repr

/-- What is left to do after a command. -/
inductive Pending where
  | nothing
  | watching (c : Config)
  | serving (c : Config)
  deriving DecidableEq, Repr

/-- The answer to a command. -/
structure Reply where
  output : String
  exit : Nat := 0
  pending : Pending := .nothing
  deriving DecidableEq, Repr

namespace Command

/-- The command that generates something. -/
def ofScaffoldArgs : List String → Command
  | [] => .usage "politecode gen <function|program|openapi> [args...]"
  | ["function"] => .usage "politecode gen function <name> [type]"
  | "function" :: name :: rest => .function name (rest.headD "")
  | ["program"] => .usage "politecode gen program <name>"
  | "program" :: name :: _ => .program name
  | "openapi" :: rest => .description (rest.headD "openapi.yaml")
  | name :: _ => .unknownScaffold name

/-- The command that the arguments ask for. Arguments that are not needed are ignored. -/
def ofArgs : List String → Command
  | [] | "help" :: _ | "--help" :: _ | "-h" :: _ => .help
  | ["init"] => .usage "politecode init <project-name>"
  | "init" :: path :: _ => .init path
  | ["translate"] => .usage "politecode translate <file.polite> [output.cs]"
  | "translate" :: source :: rest => .translate source (rest.headD "")
  | "build" :: _ => .build
  | "watch" :: _ => .watch
  | "serve" :: _ => .serve
  | "gen" :: rest => ofScaffoldArgs rest
  | ["templates"] => .examples
  | "templates" :: name :: _ => .showExample name
  | "version" :: _ => .version
  | name :: _ => .unknown name

/-- What the program says about itself. -/
def helpText : String :=
  unlines [
    "PoliteCode - polite English phrases translated to C#",
    "",
    "USAGE:",
    "    politecode <command> [arguments]",
    "",
    "COMMANDS:",
    "    init <name>                 Initialize a new PoliteCode project",
    "    translate <file> [out]      Translate one .polite file to C#",
    "    build                       Translate every source file of the project",
    "    watch                       Watch source files and rebuild on changes",
    "    serve                       Start the development server with hot reload",
    "    gen function <name> [type]  Append a function template to the sources",
    "    gen program <name>          Generate a program with a main entry point",
    "    gen openapi [file]          Write the dev server OpenAPI spec",
    "    templates [name]            List the bundled examples or print one",
    "    version                     Show version information",
    "    help                        Show this help message",
    "",
    "EXAMPLES:",
    "    politecode init calculator",
    "    politecode translate src/hello.polite Hello.cs",
    "    politecode gen function average decimal",
    "    politecode templates factorial",
    "    politecode serve"]

/-- An answer of one line that tells of a failure. -/
def failure (message : String) : Reply := { output := message ++ "\n", exit := 1 }

/-- Does a piece of work and words its outcome. -/
def settle {ε α : Type} (w : Work ε α) (done : α → String) (failed : ε → String) :
    StateM Disk Reply := do
  match ← w.run with
  | .ok a => return { output := done a }
  | .error fault => return failure (failed fault)

/-- The configuration of the project in the working directory, or why it cannot be worked with. -/
def loadProject (d : Disk) : Except String Config :=
  match Config.load d "." with
  | .error fault => .error ("Error loading config: " ++ fault.message)
  | .ok c => match Log.Level.ofName? c.log.level with
    | none => .error ("Error creating logger: " ++ Log.Level.refusal c.log.level)
    | some _ => .ok c

/-- Does something with the project in the working directory. -/
def withProject (k : Config → StateM Disk Reply) : StateM Disk Reply := do
  match loadProject (← get) with
  | .error message => return failure message
  | .ok c => k c

/-- The directory that new sources go to. -/
def sourceFolder (c : Config) : String := (c.sourcePaths ".").headD "src"

/-- Translates one source. -/
def translateFile (c : Config) (source output : String) : StateM Disk Reply := do
  match (← get).read source with
  | .error cause => return failure s!"Error reading {source}: {cause.message}"
  | .ok text =>
    let run := Courtesy.translate text
    if !run.succeeded then
      return { output := s!"Translation of {source} failed:\n" ++ excerpts text run.diagnostics
               exit := 1 }
    else if output == "" then return { output := run.code c.options }
    else
      settle (Work.write output (run.code c.options) id)
        (fun _ => s!"Translated {source} to {output}\n")
        (fun cause : FileFault => s!"Error writing {output}: {cause.message}")

/-- What is printed when the server of a project starts. -/
def servingText (port : Int) : String :=
  unlines [
    s!"Server running at http://localhost:{port}",
    s!"   API: http://localhost:{port}/api/health",
    s!"   Translate: POST http://localhost:{port}/api/translate",
    s!"   Metrics: http://localhost:{port}/metrics",
    s!"   Generated files: http://localhost:{port}/generated/",
    "",
    "Watching for file changes..."]

/-- Whether a server can listen on a port. -/
def isPort (port : Int) : Bool := 0 ≤ port && port ≤ 65535

/-- Builds a project and starts its server. A build that fails does not keep it from starting. -/
def startServer (c : Config) (ids : Nat → String) : StateM Disk Reply := do
  let _ ← (Build.run c "." ids).run
  let port := c.server.port
  let output := "Starting PoliteCode development server...\n" ++ servingText port
  if isPort port then return { output := output, pending := .serving c }
  else
    return { output := output ++
               s!"Error starting dev server: dev server: listen tcp: address {port}: invalid port\n"
             exit := 1 }

/-- Does a command in the working directory; the `i`-th translation of a build has the id
`ids i`. -/
def run (ids : Nat → String) : Command → StateM Disk Reply
  | .help => return { output := helpText }
  | .unknown name => return { output := s!"Unknown command: {name}\n" ++ helpText }
  | .usage line => return { output := s!"Usage: {line}\n" }
  | .init path => settle (Starter.create path)
      (fun _ => unlines [s!"Project '{path}' initialized successfully!", s!"   cd {path}",
        "   politecode serve"])
      (fun fault => "Error initializing project: " ++ fault.message)
  | .translate source output => withProject fun c => translateFile c source output
  | .build => withProject fun c => settle (Build.run c "." ids)
      (fun _ => "Project built successfully!\n")
      (fun fault => "Error building project: " ++ fault.message)
  | .watch => withProject fun c =>
      return { output := "Watching for file changes...\n", pending := .watching c }
  | .serve => withProject fun c => startServer c ids
  | .function name type => withProject fun c =>
      settle (Scaffold.function (sourceFolder c) name type)
      (fun path => s!"Function {name} generated at {path}\n")
      (fun fault => "Error generating function: " ++ fault.message)
  | .program name => withProject fun c => settle (Scaffold.program (sourceFolder c) name)
      (fun path => s!"Program {name} generated at {path}\n")
      (fun fault => "Error generating program: " ++ fault.message)
  | .description path => settle (Scaffold.description path Service.version)
      (fun _ => s!"OpenAPI spec written to {path}\n")
      (fun fault => "Error generating OpenAPI: " ++ fault.message)
  | .unknownScaffold name => return { output := s!"Unknown gen command: {name}\n" }
  | .examples => return { output := unlines (Example.all.map (·.name)) }
  | .showExample name => match Example.find? name with
    | some e => return { output := e.source }
    | none => return failure ("Error: " ++ Example.refusal name)
  | .version => return {
      output := s!"PoliteCode v{Service.version} - polite English phrases translated to C#\n" }

end Command

end Courtesy
