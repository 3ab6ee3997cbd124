import Courtesy.Yaml.Quoted
import Courtesy.Yaml.Token

/-!
# Anchors, tags and directives
-/

namespace Courtesy.Yaml.Name

/-- Whether the name of an anchor may end in front of a character. -/
def endsAnchor (c : Char) : Bool :=
  isGap c || c == '?' || c == ':' || c == ',' || c == ']' || c == '\x7d' || c == '%' || c == '@'
    || c == '\x60'

/-- Reads the name of an anchor or an alias, behind its sign. -/
def anchor (c : Cursor) : Option (String × Cursor) :=
  let name := c.rest.takeWhile isNameChar
  if name.isEmpty || !c.nextOrEnd endsAnchor name.length then none
  else some (String.ofList name, c.advance name.length)

/-- The characters of a tag. -/
def isTagChar (c : Char) : Bool :=
  isNameChar c || ";/?:@&=+$,.!~*'()[]".toList.contains c

/-- Reads the text of a tag, in which a percent sign and two digits stand for an ASCII character.
The first argument bounds the number of characters. -/
def tagText : Nat → List Char → Cursor → Option (List Char × Cursor)
  | 0, text, c => some (text, c)
  | fuel + 1, text, c =>
    match c.rest with
    | '%' :: a :: b :: _ => do
      let x ← Quoted.codeChar? 2 [a, b]
      if x.toNat < 0x80 then tagText fuel (text ++ [x]) (c.advance 3) else none
    | '%' :: _ => none
    | x :: _ => if isTagChar x then tagText fuel (text ++ [x]) (c.advance 1) else some (text, c)
    | [] => some (text, c)

/-- Reads a handle: an exclamation mark, name characters and perhaps one more exclamation mark. -/
def handle (c : Cursor) : Option (List Char × Cursor) :=
  match c.rest with
  | '!' :: rest =>
    let name := rest.takeWhile isNameChar
    let c := c.advance (name.length + 1)
    if c.starts '!' then some ('!' :: name ++ ['!'], c.advance 1) else some ('!' :: name, c)
  | _ => none

/-- Reads a tag: its handle and what follows the handle. -/
def tag (c : Cursor) : Option ((String × String) × Cursor) := do
  let (handle, suffix, c) ←
    if c.rest.take 2 == ['!', '<'] then do
      let (text, c) ← tagText c.rest.length [] (c.advance 2)
      if text.isEmpty || !c.starts '>' then none else pure ([], text, c.advance 1)
    else do
      let (h, c) ← handle c
      if h.length > 1 && h.getLast? == some '!' then do
        let (text, c) ← tagText c.rest.length [] c
        if text.isEmpty then none else pure (h, text, c)
      else do
        let (text, c) ← tagText c.rest.length (h.drop 1) c
        if text.isEmpty then pure ([], h, c) else pure (['!'], text, c)
  if c.nextOrEnd isGap 0 then return ((String.ofList handle, String.ofList suffix), c) else none

/-- Reads a number of at most two digits. -/
def number (c : Cursor) : Option (Nat × Cursor) :=
  let digits := c.rest.takeWhile Char.isDigit
  if digits.isEmpty || digits.length > 2 then none
  else some (digits.foldl (fun n d => n * 10 + (d.toNat - '0'.toNat)) 0, c.advance digits.length)

/-- Reads what stands behind the name of a directive. -/
def directiveBody (name : List Char) (c : Cursor) : Option (Token × Cursor) :=
  let c := c.skipWhile isBlank
  if name == "YAML".toList then do
    let (major, c) ← number c
    if !c.starts '.' then none
    else
      let (minor, c) ← number (c.advance 1)
      return (.versionDirective major minor, c)
  else if name == "TAG".toList then do
    let (h, c) ← handle c
    if h.getLast? ≠ some '!' || !c.next isBlank then none
    else
      let c := c.skipWhile isBlank
      let (text, c) ← tagText c.rest.length [] c
      if text.isEmpty || !c.nextOrEnd isGap 0 then none
      else return (.tagDirective (String.ofList h) (String.ofList text), c)
  else none

/-- Reads a directive behind its percent sign, up to the end of its line. -/
def directive (c : Cursor) : Option (Token × Cursor) := do
  let name := c.rest.takeWhile isNameChar
  if name.isEmpty || !c.nextOrEnd isGap name.length then none
  else
    let (token, c) ← directiveBody name (c.advance name.length)
    let c := c.skipWhile isBlank
    let c := if c.starts '#' then c.skipWhile (!isBreak ·) else c
    if c.rest.isEmpty then return (token, c)
    else if c.next isBreak then return (token, c.newline.2)
    else none

end Courtesy.Yaml.Name
