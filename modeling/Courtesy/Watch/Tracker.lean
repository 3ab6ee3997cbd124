import Courtesy.Files.Disk
import Courtesy.Fingerprint

/-!
# Change tracking

A tracker remembers the fingerprint that each path had when it was last asked about, so that a file
that is saved without a change is not taken for a changed one. A path that cannot be read counts as
changed and leaves no trace. Paths are told apart as they are written.
-/

namespace Courtesy

structure Tracker where
  /-- The fingerprints by path; the latest one of a path comes first. -/
  seen : List (String × String) := []
  deriving DecidableEq, Repr, Inhabited

namespace Tracker

/-- The fingerprint that was last recorded for a path. -/
def recorded? (t : Tracker) (path : String) : Option String := t.seen.lookup path

/-- The tracker with a fingerprint recorded for a path. -/
def record (t : Tracker) (path hex : String) : Tracker :=
  ⟨(path, hex) :: t.seen.filter (·.1 != path)⟩

/-- Whether a path differs from what was last recorded for it; what it holds now is recorded. -/
def check (t : Tracker) (d : Disk) (path : String) : Tracker × Bool :=
  match d.read path with
  | .error _ => (t, true)
  | .ok content =>
    let hex := fingerprint content
    if t.recorded? path = some hex then (t, false) else (t.record path hex, true)

end Tracker

end Courtesy
