import Courtesy.Files.Work
import Courtesy.Service.Description
import Courtesy.Token

/-!
# Scaffolds

Text to start from: a function that prints its name or returns the zero of its type, a program with
an entry point, and the description of the service.
-/

namespace Courtesy.Scaffold

open Courtesy.Text

/-- Why nothing was generated. -/
inductive Fault where
  | functionName (name : String)
  | returnType (name : String)
  | programName (name : String)
  | taken (path : String)
  | noVersion
  | save (cause : SaveFault)
  deriving DecidableEq, Repr

def Fault.message : Fault → String
  | functionName name => s!"invalid function name {quote name}"
  | returnType name => s!"unknown return type {quote name}"
  | programName name => s!"invalid program name {quote name}"
  | taken path => s!"{path} already exists"
  | noVersion => Service.versionRefusal
  | save cause => cause.message

/-- The literal that a generated function returns. -/
def zeroLiteral : ValueType → String
  | .integer => "0"
  | .decimal => "0.0"
  | .boolean => "false"
  | .text => "\"\""
  | .void | .invalid => ""

/-- A function that does next to nothing. -/
def functionText (type : ValueType) (name : String) : String :=
  unlines [
    s!"please define function {type.name} {name}() \x7b",
    if type = .void then s!"    thank you for printing \"{name} called\""
    else "    thank you for returning " ++ zeroLiteral type,
    "\x7d"]

/-- A program that greets. -/
def programText (name : String) : String :=
  unlines [
    "please define function void main() \x7b",
    s!"    please create text greeting equals \"Hello from {name}\"",
    "    thank you for printing greeting",
    "\x7d"]

/-- Whether a function can have a name: it is an identifier that means nothing else. -/
def isFunctionName (name : String) : Bool :=
  Literal.isIdentifier name && classify name == .identifier

/-- The type that a function is to return; void if none is given. -/
def returnType? (name : String) : Option ValueType :=
  ValueType.ofName? (if name == "" then ValueType.void.name else name)

/-- The file for something of a given name. -/
def path (dir name : String) : String := Path.join dir (lowerAscii name ++ ".polite")

/-- Adds a function to the file of its name and answers the path of the file. -/
def function (dir name type : String) : Work Fault String := do
  unless isFunctionName name do throw (.functionName name)
  let some type := returnType? type | throw (.returnType type)
  Work.makeFolders dir (.save ∘ .folder dir)
  let file := path dir name
  let text := match (← get).read file with
    | .ok existing => existing ++ "\n" ++ functionText type name
    | .error _ => functionText type name
  Work.write file text (.save ∘ .file file)
  return file

/-- Writes a program to the file of its name, which must not be there, and answers the path of the
file. -/
def program (dir name : String) : Work Fault String := do
  unless Literal.isIdentifier name do throw (.programName name)
  Work.makeFolders dir (.save ∘ .folder dir)
  let file := path dir name
  if ((← get).lookup file).isOk then throw (.taken file)
  Work.write file (programText name) (.save ∘ .file file)
  return file

/-- Writes the description of a version of the service. -/
def description (file version : String) : Work Fault Unit := do
  match Service.description? version with
  | none => throw .noVersion
  | some text => Work.save file text .save

end Courtesy.Scaffold
