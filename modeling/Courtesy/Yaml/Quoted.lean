import Courtesy.Yaml.Folding

/-!
# Quoted scalars

Between single quotes only the quote itself is special: it is written twice. Between double quotes a
backslash starts an escape, and one at the end of a line joins the lines without a space.
-/

namespace Courtesy.Yaml.Quoted

/-- The characters that one letter behind a backslash stands for. -/
def simpleEscape? (c : Char) : Option Char :=
  match c with
  | '0' => some '\x00'
  | 'a' => some '\x07'
  | 'b' => some '\x08'
  | 't' | '\t' => some '\t'
  | 'n' => some '\n'
  | 'v' => some '\x0b'
  | 'f' => some '\x0c'
  | 'r' => some '\r'
  | 'e' => some '\x1b'
  | ' ' => some ' '
  | '"' => some '"'
  | '\x27' => some '\x27'
  | '\\' => some '\\'
  | 'N' => some (Char.ofNat 0x85)
  | '_' => some (Char.ofNat 0xa0)
  | 'L' => some (Char.ofNat 0x2028)
  | 'P' => some (Char.ofNat 0x2029)
  | _ => none

/-- How many hexadecimal digits follow a letter behind a backslash. -/
def codeLength? (c : Char) : Option Nat :=
  match c with
  | 'x' => some 2
  | 'u' => some 4
  | 'U' => some 8
  | _ => none

/-- The value of a hexadecimal digit. -/
def hexValue? (c : Char) : Option Nat :=
  if '0' ≤ c && c ≤ '9' then some (c.toNat - '0'.toNat)
  else if 'a' ≤ c && c ≤ 'f' then some (c.toNat - 'a'.toNat + 10)
  else if 'A' ≤ c && c ≤ 'F' then some (c.toNat - 'A'.toNat + 10)
  else none

/-- The character with a given code, which is written with exactly `length` digits. -/
def codeChar? (length : Nat) (digits : List Char) : Option Char := do
  if digits.length ≠ length then none
  else
    let n ← digits.foldlM (fun n c => (hexValue? c).map (n * 16 + ·)) 0
    if (0xd800 ≤ n && n ≤ 0xdfff) || n > 0x10ffff then none else some (Char.ofNat n)

/-- The escape behind a backslash: its character and the number of characters it takes, the
backslash included. -/
def escape? : List Char → Option (Char × Nat)
  | [] => none
  | c :: rest =>
    match simpleEscape? c with
    | some x => some (x, 2)
    | none => do
      let length ← codeLength? c
      let x ← codeChar? length (rest.take length)
      return (x, length + 2)

/-- Reads characters up to a gap or the closing quote. The last component says whether they end in
an escaped line break. The first argument bounds the number of characters. -/
def readRun (single : Bool) : Nat → List Char → Cursor → Option (List Char × Cursor × Bool)
  | 0, text, c => some (text, c, false)
  | fuel + 1, text, c =>
    match c.rest with
    | [] => some (text, c, false)
    | x :: xs =>
      if isGap x then some (text, c, false)
      else if single && x == '\x27' then
        if xs.head? == some '\x27' then readRun single fuel (text ++ ['\x27']) (c.advance 2)
        else some (text, c, false)
      else if !single && x == '"' then some (text, c, false)
      else if !single && x == '\\' then
        if xs.head?.any isBreak then some (text, (c.advance 1).newline.2, true)
        else do
          let (y, n) ← escape? xs
          readRun single fuel (text ++ [y]) (c.advance n)
      else readRun single fuel (text ++ [x]) (c.advance 1)

/-- Reads a scalar on to its closing quote. The first argument bounds the number of runs. -/
def readFrom (single : Bool) : Nat → List Char → Cursor → Option (List Char × Cursor)
  | 0, _, _ => none
  | fuel + 1, text, c =>
    if c.atMarker '-' || c.atMarker '.' || c.rest.isEmpty then none
    else do
      let (text, c, joined) ← readRun single (c.rest.length + 1) text c
      if c.starts (if single then '\x27' else '"') then return (text, c.advance 1)
      else
        let (gap, c) ← Gap.read none (c.rest.length + 1) { broken := joined } c
        readFrom single fuel (text ++ gap.text) c

/-- Reads a scalar behind its opening quote. -/
def read (single : Bool) (c : Cursor) : Option (List Char × Cursor) :=
  readFrom single (c.rest.length + 1) [] c

end Courtesy.Yaml.Quoted
