import Courtesy.Text.Pieces

/-!
# Directory trees

A tree gives an entry to each of its places. A place is the list of names that leads to it from the
root, which itself is always a directory. The entries are kept in the order of their places: names
are compared one by one and a directory comes in front of what is below it, so a walk through the
tree is a walk through the list.
-/

namespace Courtesy

/-- The names that lead from the root to an entry. -/
abbrev Place := List String

/-- Whether a place comes in front of another one in a walk. -/
def Place.before : Place → Place → Bool
  | [], [] => false
  | [], _ :: _ => true
  | _ :: _, [] => false
  | a :: as, b :: bs => if a == b then Place.before as bs else a < b

inductive Entry where
  | file (content : String)
  | folder
  deriving DecidableEq, Repr

structure Tree where
  entries : List (Place × Entry) := []
  deriving DecidableEq, Repr, Inhabited

namespace Tree

/-- The entry at a place. -/
def get? (t : Tree) (p : Place) : Option Entry :=
  if p = [] then some .folder else t.entries.lookup p

/-- Entries with one more in the order of the walk; it takes the place of one that is there. -/
def insertInto (p : Place) (e : Entry) : List (Place × Entry) → List (Place × Entry)
  | [] => [(p, e)]
  | (q, f) :: rest =>
    if p = q then (p, e) :: rest
    else if Place.before p q then (p, e) :: (q, f) :: rest
    else (q, f) :: insertInto p e rest

/-- A tree with an entry put at a place. -/
def put (t : Tree) (p : Place) (e : Entry) : Tree := ⟨insertInto p e t.entries⟩

/-- A tree without a place and everything below it. -/
def remove (t : Tree) (p : Place) : Tree :=
  ⟨t.entries.filter fun (q, _) => !p.isPrefixOf q⟩

/-- The entries strictly below a place, each with the names that lead to it from there. -/
def below (t : Tree) (p : Place) : List (Place × Entry) :=
  t.entries.filterMap fun (q, e) =>
    if p.isPrefixOf q && p.length < q.length then some (q.drop p.length, e) else none

/-- A tree with a directory at each of the places that lead to `p`, as far as there is none, and at
`p` itself. -/
def putFolders (t : Tree) (p : Place) : Tree :=
  (List.range p.length).foldl (fun t i =>
    let q := p.take (i + 1)
    if (t.get? q).isSome then t else t.put q .folder) t

/-- A tree with a file and the directories that lead to it. -/
def putFile (t : Tree) (p : Place) (content : String) : Tree :=
  (t.putFolders p.dropLast).put p (.file content)

/-- The entries below a place that an earlier tree does not have. -/
def changes (old new : Tree) (p : Place) : List (Place × Entry) :=
  (new.below p).filter fun (q, e) => old.get? (p ++ q) ≠ some e

/-- The places below a place that a later tree does not have. -/
def losses (old new : Tree) (p : Place) : List Place :=
  (old.below p).filterMap fun (q, _) => if (new.get? (p ++ q)).isNone then some q else none

end Tree

end Courtesy
