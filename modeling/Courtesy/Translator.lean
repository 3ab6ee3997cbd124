import Courtesy.Translation

/-!
# Translators

A translator can be given input and run again and again. It holds the lines of the input and what
its last run yielded.
-/

namespace Courtesy

structure Translator where
  options : Target.Options := {}
  lines : List String := []
  last : Run := {}
  deriving DecidableEq, Repr, Inhabited

namespace Translator

/-- Takes the solid lines of an input in place of the lines it had. -/
def setInput (t : Translator) (input : List String) : Translator :=
  { t with lines := Text.solidLines input }

/-- Whether there is a line to read. -/
def hasInput (t : Translator) : Bool := !t.lines.isEmpty

/-- Runs over the lines it holds. -/
def process (t : Translator) : Translator := { t with last := Run.ofLines t.lines }

/-- Forgets the lines and the last run. -/
def reset (t : Translator) : Translator := { options := t.options }

/-- The program of the last run. -/
def code (t : Translator) : String := t.last.code t.options

end Translator

end Courtesy
