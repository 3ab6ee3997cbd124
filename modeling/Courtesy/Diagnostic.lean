import Courtesy.Text.Pieces

/-!
# Diagnostics

A diagnostic tells one problem of a program: what kind of problem it is, its wording, and where it
is. Lines and columns count from one; a number that is not positive means that the place is not
known. A terminal diagnostic makes the translation fail.
-/

namespace Courtesy

/-- The kind of a problem, known by its name. -/
structure Category where
  name : String
  deriving DecidableEq, Repr, Inhabited

namespace Category

def lexical : Category := ⟨"lexical"⟩
def structural : Category := ⟨"structural"⟩
def scope : Category := ⟨"scope"⟩
def type : Category := ⟨"type"⟩
def semantic : Category := ⟨"semantic"⟩
def entryPoint : Category := ⟨"entry-point"⟩

/-- The categories that a translation uses. -/
def all : List Category := [lexical, structural, scope, type, semantic, entryPoint]

/-- The category that the wording of a value's fault belongs to. A mismatch is a matter of types, a
name that is missing a matter of scope, anything else a matter of structure. -/
def ofWording (message : String) : Category :=
  if Text.startsWith "Type mismatch" message || Text.contains "is of type" message then type
  else if Text.contains "not found" message || Text.contains "undeclared" message then scope
  else structural

end Category

structure Diagnostic where
  category : Category
  message : String
  line : Int := 0
  column : Int := 0
  terminal : Bool := false
  deriving DecidableEq, Repr, Inhabited

namespace Diagnostic

/-- The message behind the place, as far as the place is known. -/
def text (d : Diagnostic) : String :=
  if d.line > 0 && d.column > 0 then s!"line {d.line}, column {d.column}: {d.message}"
  else if d.line > 0 then s!"line {d.line}: {d.message}"
  else d.message

end Diagnostic

/-- What a translation tells while it runs. -/
inductive Event where
  | fault (diagnostic : Diagnostic)
  | info (message : String)
  deriving DecidableEq, Repr

namespace Event

/-- The diagnostic of an event, if it is one. -/
def diagnostic? : Event → Option Diagnostic
  | fault d => some d
  | info _ => none

/-- The progress message of an event, if it is one. -/
def info? : Event → Option String
  | fault _ => none
  | info m => some m

/-- The diagnostics among events, in order. -/
def diagnostics (es : List Event) : List Diagnostic := es.filterMap diagnostic?

/-- The progress messages among events, in order. -/
def infos (es : List Event) : List String := es.filterMap info?

end Event

end Courtesy
