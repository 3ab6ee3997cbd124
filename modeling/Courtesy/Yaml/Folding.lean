import Courtesy.Yaml.Cursor

/-!
# Gaps inside of scalars

Inside of a scalar blanks within a line are kept. A gap that holds line breaks is folded: one break
becomes a space and each further one a line feed.
-/

namespace Courtesy.Yaml

/-- The text between two runs of characters: blanks, or the first break and the breaks behind it. -/
structure Gap where
  blanks : List Char := []
  first : List Char := []
  further : List Char := []
  broken : Bool := false
  deriving DecidableEq, Repr, Inhabited

namespace Gap

/-- What a gap stands for. -/
def text (g : Gap) : List Char :=
  if g.broken then
    if g.first.head? == some '\n' then
      if g.further.isEmpty then [' '] else g.further
    else g.first ++ g.further
  else g.blanks

/-- Reads a gap on from `g`. With an indentation, a tab in front of it is refused. The first
argument bounds the number of characters. -/
def read (indent : Option Nat) : Nat → Gap → Cursor → Option (Gap × Cursor)
  | 0, g, c => some (g, c)
  | fuel + 1, g, c =>
    match c.peek? with
    | none => some (g, c)
    | some x =>
      if isBlank x then
        if g.broken then
          if x == '\t' && indent.any (c.column < ·) then none
          else read indent fuel g (c.advance 1)
        else read indent fuel { g with blanks := g.blanks ++ [x] } (c.advance 1)
      else if isBreak x then
        let (text, c') := c.newline
        if g.broken then read indent fuel { g with further := g.further ++ text } c'
        else read indent fuel { g with blanks := [], first := text, broken := true } c'
      else some (g, c)

end Gap

end Courtesy.Yaml
