import Courtesy.Text.Pieces

/-!
# Finding a token in the source

Offsets and columns count bytes. An occurrence that is not part of a longer word is preferred to
one that is.
-/

namespace Courtesy.Location

open Courtesy.Text

/-- Whether the character that follows, if any, does not continue a word. -/
def freeAfter : List Char → Bool
  | [] => true
  | c :: _ => !isWordChar c

/-- The byte offset of the first occurrence in a text that starts `offset` bytes into a line. -/
def firstFrom (token : List Char) : Nat → List Char → Option Nat
  | offset, [] => if token.isEmpty then some offset else none
  | offset, c :: cs =>
    if token.isPrefixOf (c :: cs) then some offset
    else firstFrom token (offset + c.utf8Size) cs

/-- The byte offset of the first occurrence that no word character touches. The first argument says
whether a word character stands in front. -/
def wholeFrom (token : List Char) : Bool → Nat → List Char → Option Nat
  | inWord, offset, [] => if token.isEmpty && !inWord then some offset else none
  | inWord, offset, c :: cs =>
    if !inWord && token.isPrefixOf (c :: cs) && freeAfter ((c :: cs).drop token.length) then
      some offset
    else wholeFrom token (isWordChar c) (offset + c.utf8Size) cs

/-- The byte offset of the best occurrence of a token in a line. -/
def offset? (token line : String) : Option Nat :=
  wholeFrom token.toList false 0 line.toList <|> firstFrom token.toList 0 line.toList

/-- The 1-based column of the best occurrence of a token in a line, zero when there is none. -/
def column (line token : String) : Nat :=
  if token == "" then 0 else match offset? token line with
    | some offset => offset + 1
    | none => 0

/-- How many lines are searched, the starting line included. -/
def lookback : Nat := 5

/-- The line and the column, both 1-based, of a token in the nearest line at or above the 0-based
index `start`; a start past the last line means the last line. -/
def locate? (lines : List String) (token : String) (start : Int) : Option (Nat × Nat) :=
  if token == "" || start < 0 then none
  else
    let last := min start.toNat (lines.length - 1)
    (List.range lookback).findSome? fun back =>
      if back ≤ last then do
        let line ← lines[last - back]?
        let offset ← offset? token line
        return (last - back + 1, offset + 1)
      else none

/-- The column of a token that is looked for from the line with index `i` upwards, zero when the
nearest place is not in that line. -/
def columnAt (lines : List String) (token : String) (i : Nat) : Nat :=
  match locate? lines token i with
  | some (line, column) => if line = i + 1 then column else 0
  | none => 0

/-- The 0-based index of the first line that holds the trimmed context. -/
def lineIndex? (lines : List String) (context : String) : Option Nat :=
  let wanted := trim context
  if wanted == "" then none else lines.findIdx? (contains wanted)

end Courtesy.Location
