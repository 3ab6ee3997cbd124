import Courtesy.Diagnostic
import Courtesy.Text.Quoted

/-!
# Log levels and log entries
-/

namespace Courtesy.Log

/-- The levels, the least severe first. -/
inductive Level where
  | debug
  | info
  | warn
  | error
  | dpanic
  | panic
  | fatal
  deriving DecidableEq, Repr, Inhabited

namespace Level

def all : List Level := [debug, info, warn, error, dpanic, panic, fatal]

def name : Level → String
  | debug => "debug"
  | info => "info"
  | warn => "warn"
  | error => "error"
  | dpanic => "dpanic"
  | panic => "panic"
  | fatal => "fatal"

/-- How severe a level is. -/
def severity : Level → Nat
  | debug => 0
  | info => 1
  | warn => 2
  | error => 3
  | dpanic => 4
  | panic => 5
  | fatal => 6

/-- A letter in lower case, as far as the result can be an ASCII letter: besides the ASCII letters
these are the dotted capital I and the Kelvin sign. -/
def lower (c : Char) : Char :=
  if c.toNat == 0x130 then 'i' else if c.toNat == 0x212a then 'k' else c.toLower

/-- The level with a given name, in any letter case. No name stands for `info`. -/
def ofName? (s : String) : Option Level :=
  if s == "" then some info
  else
    let lowered := String.ofList (s.toList.map lower)
    all.find? (·.name == lowered)

/-- Whether a logger set to the level `threshold` writes entries of the level `l`. -/
def isEnabled (threshold l : Level) : Bool := threshold.severity ≤ l.severity

/-- The wording with which an unknown level is refused. -/
def refusal (s : String) : String :=
  s!"invalid log level {Text.quote s}: unrecognized level: {Text.quote s}"

end Level

/-- The value of a field of a log entry. -/
inductive Value where
  | text (s : String)
  | number (n : Int)
  | flag (b : Bool)
  deriving DecidableEq, Repr

structure Entry where
  level : Level
  message : String
  fields : List (String × Value) := []
  deriving DecidableEq, Repr

/-- The entry of an event: a diagnostic is an error with its place as far as it is known, a
progress message is only for debugging. -/
def Entry.ofEvent : Event → Entry
  | .info m => ⟨.debug, m, []⟩
  | .fault d => ⟨.error, d.message,
      [("category", .text d.category.name)]
        ++ (if d.line > 0 then [("line", .number d.line)] else [])
        ++ (if d.column > 0 then [("column", .number d.column)] else [])
        ++ (if d.terminal then [("terminal", .flag true)] else [])⟩

end Courtesy.Log
