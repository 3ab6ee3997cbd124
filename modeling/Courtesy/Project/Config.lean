import Courtesy.Files.Disk
import Courtesy.Number.Shortest
import Courtesy.Target.Program
import Courtesy.Yaml.Tagged

/-!
# Project configuration

A project is configured by a file in its directory. Without the file everything has its default and
the project has the name of its directory; a field that is left out of the file, or empty, has its
default too, except for the name.
-/

namespace Courtesy

/-- Where the program goes: no namespace means the default one, an empty namespace none at all. -/
structure TargetSettings where
  ns : Option String := none
  cls : String := ""
  deriving DecidableEq, Repr, Inhabited

structure LogSettings where
  level : String := ""
  development : Bool := false
  deriving DecidableEq, Repr, Inhabited

structure ServerSettings where
  port : Int := 0
  rateLimit : Binary64 := .finite false 0 0
  burst : Int := 0
  deriving DecidableEq, Repr, Inhabited

structure Config where
  name : String := ""
  sourceDirs : List String := []
  outputDir : String := ""
  target : TargetSettings := {}
  log : LogSettings := {}
  server : ServerSettings := {}
  deriving DecidableEq, Repr, Inhabited

namespace Config

open Courtesy.Yaml

/-- The name of the configuration file. -/
def fileName : String := "politecode.yaml"

/-- Fills in the defaults. -/
def withDefaults (c : Config) : Config :=
  { c with
    sourceDirs := if c.sourceDirs.isEmpty then ["src"] else c.sourceDirs
    outputDir := if c.outputDir == "" then "generated" else c.outputDir
    target := { c.target with
      cls := if c.target.cls == "" then ({} : Target.Options).cls else c.target.cls }
    log := { c.log with level := if c.log.level == "" then "info" else c.log.level }
    server :=
      { port := if c.server.port = 0 then 8080 else c.server.port
        rateLimit := if c.server.rateLimit.isAtMostZero then .ofInt 5 else c.server.rateLimit
        burst := if c.server.burst ≤ 0 then 10 else c.server.burst } }

/-- The configuration without a file. -/
def default (name : String) : Config := withDefaults { name := name }

/-- The options with which programs are written. -/
def options (c : Config) : Target.Options :=
  let o : Target.Options := {}
  { ns := c.target.ns.getD o.ns
    cls := if c.target.cls == "" then o.cls else c.target.cls }

/-! ## Reading -/

def targetFields : Node.Fields TargetSettings :=
  [("namespace", fun n t => n.optionalText?.map fun ns => { t with ns := ns }),
   ("class", fun n t => n.text?.map fun cls => { t with cls := cls })]

def logFields : Node.Fields LogSettings :=
  [("level", fun n l => n.text?.map fun level => { l with level := level }),
   ("development", fun n l => n.flag?.map fun b => { l with development := b })]

def serverFields : Node.Fields ServerSettings :=
  [("port", fun n s => n.integer?.map fun port => { s with port := port }),
   ("rate_limit", fun n s => n.decimal?.map fun rate => { s with rateLimit := rate }),
   ("burst", fun n s => n.integer?.map fun burst => { s with burst := burst })]

def fields : Node.Fields Config :=
  [("name", fun n c => n.text?.map fun name => { c with name := name }),
   ("source_dirs", fun n c => n.texts?.map fun dirs => { c with sourceDirs := dirs }),
   ("output_dir", fun n c => n.text?.map fun dir => { c with outputDir := dir }),
   ("target", fun n c => (n.record? targetFields {} c.target).map fun t => { c with target := t }),
   ("log", fun n c => (n.record? logFields {} c.log).map fun l => { c with log := l }),
   ("server", fun n c => (n.record? serverFields {} c.server).map fun s => { c with server := s })]

/-- The fields that a text gives; none when the text is malformed, names a field that does not exist
or twice the same, or gives a field a value of the wrong kind. -/
def ofText? (text : String) : Option Config :=
  match Node.read? text with
  | none => none
  | some none => some {}
  | some (some n) => n.record? fields {} {}

/-- Why there is no configuration. -/
inductive Fault where
  | unreadable (path : String) (cause : FileFault)
  | malformed (path : String)
  deriving DecidableEq, Repr

def Fault.message : Fault → String
  | unreadable path cause => s!"read {path}: {cause.message}"
  | malformed path => s!"parse {path}: not a valid configuration"

/-- The configuration of the project in a directory. How the text of a file is decoded is a matter
of the library that is used. -/
def load (d : Disk) (dir : String) (decode : String → Option Config := ofText?) :
    Except Fault Config :=
  let path := Path.join dir fileName
  match d.read path with
  | .error cause =>
    if cause.cause = .missing then .ok (default (d.folderName dir))
    else .error (.unreadable path cause)
  | .ok text => match decode text with
    | some c => .ok c.withDefaults
    | none => .error (.malformed path)

/-- The directories that hold the sources of a project. -/
def sourcePaths (c : Config) (root : String) : List String := c.sourceDirs.map (Path.join root)

/-- The directory that holds the outcome of a build. -/
def outputPath (c : Config) (root : String) : String := Path.join root c.outputDir

end Config

end Courtesy
