import Courtesy.Number.Shortest
import Courtesy.Tally
import Courtesy.Translation

/-!
# Metrics

The service counts its translations by result and the diagnostics it reports by category. A family
of counters is written with its help and its type, and left out as long as it has no counter.
-/

namespace Courtesy.Service

open Courtesy.Text

structure Metrics where
  results : Tally String := {}
  faults : Tally String := {}
  deriving DecidableEq, Repr, Inhabited

namespace Metrics

/-- The label of a run that went through, and of one that did not. -/
def resultName (succeeded : Bool) : String := if succeeded then "ok" else "failed"

/-- The metrics after one more translation. -/
def observe (m : Metrics) (run : Run) : Metrics :=
  { results := m.results.add (resultName run.succeeded)
    faults := m.faults.addAll (run.diagnostics.map (·.category.name)) }

/-- How many translations there were. -/
def total (m : Metrics) : Nat := m.results.counts.foldl (fun n entry => n + entry.2) 0

/-- A family of counters that differ in one label, in the order of its values. -/
def counters (name help label : String) (t : Tally String) : List String :=
  if t.counts.isEmpty then []
  else
    [s!"# HELP {name} {help}", s!"# TYPE {name} counter"]
    ++ (t.counts.mergeSort fun a b => decide (a.1 ≤ b.1)).map fun (value, n) =>
      name ++ "\x7b" ++ label ++ "=\"" ++ value ++ "\"\x7d " ++ (Binary64.ofInt n).text

/-- The metrics as text. How long translations take is only counted. -/
def render (m : Metrics) : String :=
  let durations := "politecode_translations_duration_seconds"
  unlines (
    counters "politecode_diagnostics_total" "Reported diagnostics by category" "category" m.faults
    ++ [s!"# HELP {durations} Translation duration in seconds", s!"# TYPE {durations} histogram",
        s!"{durations}_count {m.total}"]
    ++ counters "politecode_translations_total" "Translation runs by result" "result" m.results)

end Metrics

end Courtesy.Service
