import Courtesy.Yaml.Cursor

/-!
# Block scalars

A bar keeps the line breaks of the lines below it, a greater-than sign folds them. The header can
say how far the lines are indented and what becomes of the breaks at the end.
-/

namespace Courtesy.Yaml.Block

/-- What becomes of the line breaks at the end: all but one are dropped, none is kept, or
all are. -/
inductive Chomping where
  | clip
  | strip
  | keep
  deriving DecidableEq, Repr, Inhabited

structure Header where
  chomping : Chomping := .clip
  increment : Nat := 0
  deriving DecidableEq, Repr, Inhabited

/-- A sign that says how to chomp. -/
def chomping? (c : Char) : Option Chomping :=
  if c == '+' then some .keep else if c == '-' then some .strip else none

/-- A digit that says how far to indent, which is not zero. -/
def increment? (c : Char) : Option Nat :=
  if '1' ≤ c && c ≤ '9' then some (c.toNat - '0'.toNat) else none

/-- Reads the sign and the digit of a header, in either order. -/
def header (c : Cursor) : Option (Header × Cursor) :=
  match c.rest with
  | x :: xs =>
    match chomping? x with
    | some chomping =>
      match xs.head? with
      | some d =>
        if d == '0' then none
        else match increment? d with
          | some n => some (⟨chomping, n⟩, c.advance 2)
          | none => some (⟨chomping, 0⟩, c.advance 1)
      | none => some (⟨chomping, 0⟩, c.advance 1)
    | none =>
      if x == '0' then none
      else match increment? x with
        | some n =>
          match xs.head?.bind chomping? with
          | some chomping => some (⟨chomping, n⟩, c.advance 2)
          | none => some (⟨.clip, n⟩, c.advance 1)
        | none => some ({}, c)
  | [] => some ({}, c)

/-- Reads the rest of the header line, which holds nothing but a comment. -/
def headerEnd (c : Cursor) : Option Cursor :=
  let c := c.skipWhile isBlank
  let c := if c.starts '#' then c.skipWhile (!isBreak ·) else c
  if c.rest.isEmpty then some c
  else if c.next isBreak then some c.newline.2
  else none

/-- Reads indentation and empty lines: the breaks, the widest indentation, and where a line with
content starts. An indentation of zero is not known yet. The first argument bounds the number of
lines. -/
def breaks (indent : Nat) : Nat → List Char → Nat → Cursor → Option (List Char × Nat × Cursor)
  | 0, text, widest, c => some (text, widest, c)
  | fuel + 1, text, widest, c =>
    let spaces := (c.rest.takeWhile (· == ' ')).length
    let c := c.advance (if indent == 0 then spaces else min spaces (indent - c.column))
    let widest := max widest c.column
    if (indent == 0 || c.column < indent) && c.starts '\t' then none
    else if c.next isBreak then
      let (b, c) := c.newline
      breaks indent fuel (text ++ b) widest c
    else some (text, widest, c)

/-- A part of a scalar that has been read. -/
structure Part where
  text : List Char := []
  lead : List Char := []
  trail : List Char := []
  blank : Bool := false
  deriving Repr, Inhabited

/-- Reads the lines of a scalar. The first argument bounds their number. -/
def lines (literal : Bool) (indent : Nat) : Nat → Part → Cursor → Option (Part × Cursor)
  | 0, part, c => some (part, c)
  | fuel + 1, part, c =>
    if c.column ≠ indent || c.rest.isEmpty then some (part, c)
    else
      let blank := c.next isBlank
      let folds := !literal && !part.blank && !blank && part.lead.head? == some '\n'
      let lead := if folds then (if part.trail.isEmpty then [' '] else []) else part.lead
      let line := c.rest.takeWhile (!isBreak ·)
      let (lead', c) := (c.advance line.length).newline
      do
        let (trail, _, c) ← breaks indent (c.rest.length + 1) [] 0 c
        lines literal indent fuel ⟨part.text ++ lead ++ part.trail ++ line, lead', trail, blank⟩ c

/-- The text of a scalar whose lines have been read. -/
def finish (chomping : Chomping) (part : Part) : List Char :=
  match chomping with
  | .strip => part.text
  | .clip => part.text ++ part.lead
  | .keep => part.text ++ part.lead ++ part.trail

/-- Reads a scalar behind its sign. The indentation around it is that of its parent, -1 at the top
level. -/
def read (literal : Bool) (around : Int) (c : Cursor) : Option (List Char × Cursor) := do
  let (h, c) ← header c
  let c ← headerEnd c
  let known : Nat := if h.increment == 0 then 0 else (max around 0).toNat + h.increment
  let (trail, widest, c) ← breaks known (c.rest.length + 1) [] 0 c
  let indent := if known == 0 then max (max widest (around + 1).toNat) 1 else known
  let (part, c) ← lines literal indent (c.rest.length + 1) { trail := trail } c
  return (finish h.chomping part, c)

end Courtesy.Yaml.Block
