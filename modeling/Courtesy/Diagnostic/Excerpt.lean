import Courtesy.Diagnostic
import Courtesy.Diagnostic.Location

/-!
# Excerpts

A diagnostic shown with the line it points at and a caret under its column. One without a line is
matched to the source by the first quoted fragment of its message.
-/

namespace Courtesy

open Courtesy.Text

/-- What stands between the first two apostrophes of a text; empty when there are fewer. -/
def quotedFragment (s : String) : String :=
  match split (· == '\x27') s.toList with
  | _ :: fragment :: _ :: _ => String.ofList fragment
  | _ => ""

namespace Diagnostic

/-- The 0-based index of the line that a diagnostic points at. -/
def lineIndex? (lines : List String) (d : Diagnostic) : Option Nat :=
  if d.line ≤ 0 then Location.lineIndex? lines (quotedFragment d.message)
  else some (d.line - 1).toNat

/-- The line under a diagnostic, with a caret when both its line and its column are known; empty
when no line matches. -/
def excerpt (lines : List String) (d : Diagnostic) : String :=
  match (d.lineIndex? lines).bind (lines[·]?) with
  | none => ""
  | some line =>
    let shown := "    " ++ line ++ "\n"
    if d.line > 0 && d.column > 0 then
      shown ++ "    " ++ String.ofList (List.replicate (d.column - 1).toNat ' ') ++ "^\n"
    else shown

/-- A diagnostic with its excerpt. -/
def display (lines : List String) (d : Diagnostic) : String :=
  d.category.name ++ ": " ++ d.text ++ "\n" ++ d.excerpt lines

end Diagnostic

/-- The diagnostics of a source text, each with its excerpt. -/
def excerpts (source : String) (ds : List Diagnostic) : String :=
  let shown := solidLines (lines source)
  String.join (ds.map (·.display shown))

end Courtesy
