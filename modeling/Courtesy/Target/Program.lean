import Courtesy.Text.Pieces

/-!
# The program template

Body lines are wrapped in a class, and the class in a namespace unless the namespace is empty.
-/

namespace Courtesy.Target

/-- The names a program is wrapped in. An empty namespace leaves the class alone, an empty class
name stands for the default one. -/
structure Options where
  ns : String := "PoliteCodeGenerated"
  cls : String := "Program"
  deriving DecidableEq, Repr, Inhabited

/-- One level of indentation. -/
def indentUnit : String := "    "

/-- The white space in front of a body line of a block depth. -/
def indent (level : Nat) : String := String.join (List.replicate level indentUnit)

/-- The lines in front of every program. -/
def imports : List String :=
  ["using System;", "using System.Collections.Generic;", "using System.Linq;",
    "using System.Text;", ""]

/-- A body line behind its lead; a blank line stays empty. -/
def bodyLine (lead line : String) : String :=
  if Text.trim line == "" then "" else lead ++ line

/-- The class of a program with its body, `lead` in front of each of its lines. -/
def classLines (cls lead : String) (body : List String) : List String :=
  [lead ++ "public class " ++ cls, lead ++ "\x7b"]
    ++ body.map (bodyLine (lead ++ indentUnit)) ++ [lead ++ "\x7d"]

/-- The program of a body. -/
def program (body : List String) (options : Options) : String :=
  let cls := if options.cls == "" then "Program" else options.cls
  Text.unlines <| imports ++
    if options.ns == "" then classLines cls "" body
    else ["namespace " ++ options.ns, "\x7b"] ++ classLines cls indentUnit body ++ ["\x7d"]

end Courtesy.Target
