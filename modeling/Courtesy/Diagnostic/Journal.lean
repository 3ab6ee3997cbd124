import Courtesy.Diagnostic

/-!
# Journals

A journal keeps the events it is told, diagnostics and progress messages apart.
-/

namespace Courtesy

structure Journal where
  diagnostics : List Diagnostic := []
  infos : List String := []
  deriving DecidableEq, Repr, Inhabited

namespace Journal

/-- A journal with one more event. -/
def record (j : Journal) : Event → Journal
  | .fault d => { j with diagnostics := j.diagnostics ++ [d] }
  | .info m => { j with infos := j.infos ++ [m] }

/-- How many diagnostics of a category have been recorded. -/
def count (j : Journal) (c : Category) : Nat := j.diagnostics.countP (·.category == c)

end Journal

end Courtesy
