import Courtesy.Diagnostic
import Courtesy.Yaml.Document
import Courtesy.Yaml.Tagged

/-!
# Build reports

Every source that is built leaves a report: which source it was, the fingerprint of what it held,
whether it was translated and where to, and the diagnostics. A report is written as a document and
can be read back from it.
-/

namespace Courtesy

structure Report where
  id : String := ""
  source : String := ""
  fingerprint : String := ""
  ok : Bool := false
  /-- Where the program was written; empty if there is none. -/
  output : String := ""
  diagnostics : List Diagnostic := []
  deriving DecidableEq, Repr, Inhabited

namespace Report

open Courtesy.Yaml

/-! ## Writing -/

def diagnosticDocument (d : Diagnostic) : Document :=
  .mapping (
    [("category", .text d.category.name), ("message", .text d.message)]
    ++ (if d.line = 0 then [] else [("line", .number d.line)])
    ++ (if d.column = 0 then [] else [("column", .number d.column)])
    ++ (if d.terminal then [("terminal", .flag true)] else []))

def document (r : Report) : Document :=
  .mapping (
    [("id", .text r.id), ("source", .text r.source), ("fingerprint", .text r.fingerprint),
     ("ok", .flag r.ok)]
    ++ (if r.output == "" then [] else [("output", .text r.output)])
    ++ [("diagnostics", .sequence (r.diagnostics.map diagnosticDocument))])

def render (r : Report) : String := r.document.render

/-! ## Reading -/

def diagnosticFields : Node.Fields Diagnostic :=
  [("category", fun n d => n.text?.map fun name => { d with category := ⟨name⟩ }),
   ("message", fun n d => n.text?.map fun message => { d with message := message }),
   ("line", fun n d => n.integer?.map fun line => { d with line := line }),
   ("column", fun n d => n.integer?.map fun column => { d with column := column }),
   ("terminal", fun n d => n.flag?.map fun b => { d with terminal := b })]

def diagnostics? : Node → Option (List Diagnostic)
  | .sequence items =>
    let blank : Diagnostic := { category := ⟨""⟩, message := "" }
    items.mapM fun n => n.record? diagnosticFields blank blank
  | _ => none

def fields : Node.Fields Report :=
  [("id", fun n r => n.text?.map fun id => { r with id := id }),
   ("source", fun n r => n.text?.map fun source => { r with source := source }),
   ("fingerprint", fun n r => n.text?.map fun hex => { r with fingerprint := hex }),
   ("ok", fun n r => n.flag?.map fun ok => { r with ok := ok }),
   ("output", fun n r => n.text?.map fun path => { r with output := path }),
   ("diagnostics", fun n r => (diagnostics? n).map fun ds => { r with diagnostics := ds })]

/-- The report that a text holds. -/
def ofText? (text : String) : Option Report := do
  let n ← (← Node.read? text)
  n.record? fields {} {}

end Report

end Courtesy
