import Courtesy.Yaml.Folding

/-!
# Plain scalars

A plain scalar ends at a comment, at a colon that a gap follows, at a document marker and, in a
block, at a line that is indented less. In a flow collection the marks of the collection end it too.
-/

namespace Courtesy.Yaml.Plain

/-- The marks that end a plain scalar in a flow collection. -/
def isFlowMark (c : Char) : Bool :=
  c == ',' || c == '?' || c == '[' || c == ']' || c == '\x7b' || c == '\x7d'

/-- The characters up to the next gap or end of the scalar. -/
def run (flow : Bool) : List Char → List Char
  | [] => []
  | c :: cs =>
    if isGap c then []
    else if c == ':' && cs.head?.all isGap then []
    else if flow && isFlowMark c then []
    else c :: run flow cs

/-- A scalar that has been read: its text, where it ends, and whether it ends behind a
line break. -/
structure Result where
  text : List Char
  cursor : Cursor
  broken : Bool
  deriving Repr, Inhabited

/-- Reads a scalar on, `text` having been read and `gap` standing behind it. The first argument
bounds the number of runs. -/
def readFrom (flow : Bool) (indent : Nat) : Nat → List Char → Gap → Cursor → Option Result
  | 0, text, gap, c => some ⟨text, c, gap.broken⟩
  | fuel + 1, text, gap, c =>
    if c.atMarker '-' || c.atMarker '.' || c.starts '#' then some ⟨text, c, gap.broken⟩
    else
      let chars := run flow c.rest
      let c := c.advance chars.length
      let (text, gap) := if chars.isEmpty then (text, gap) else (text ++ gap.text ++ chars, {})
      if !c.next isGap then some ⟨text, c, gap.broken⟩
      else do
        let (gap, c) ← gap.read (some indent) (c.rest.length + 1) c
        if !flow && c.column < indent then some ⟨text, c, gap.broken⟩
        else readFrom flow indent fuel text gap c

/-- Reads a scalar. -/
def read (flow : Bool) (indent : Nat) (c : Cursor) : Option Result :=
  readFrom flow indent (c.rest.length + 1) [] {} c

end Courtesy.Yaml.Plain
