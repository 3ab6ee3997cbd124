import Courtesy.Text.Quoted

/-!
# Objects in requests and answers

Requests and answers of the service are written as nested objects and lists. `Json.render` writes a
value without blanks, with the characters escaped that could end a script; `Json.read?` reads the
first value of a text and leaves the rest.
-/

namespace Courtesy.Service

open Courtesy.Text

inductive Json where
  | null
  | flag (b : Bool)
  /-- A number by its digits. -/
  | number (literal : String)
  | text (s : String)
  | list (items : List Json)
  /-- The fields in the order in which they are written; a key may occur twice. -/
  | object (fields : List (String × Json))
  deriving Repr, Inhabited

namespace Json

/-! ## Writing -/

/-- A character in a written text. Those that mean something in a page are written by their code. -/
def escaped (c : Char) : List Char :=
  let n := c.toNat
  if c == '"' || c == '\\' then ['\\', c]
  else if n == 8 then ['\\', 'b']
  else if n == 9 then ['\\', 't']
  else if n == 10 then ['\\', 'n']
  else if n == 12 then ['\\', 'f']
  else if n == 13 then ['\\', 'r']
  else if n < 0x20 || c == '<' || c == '>' || c == '&' || n == 0x2028 || n == 0x2029 then
    '\\' :: 'u' :: hex 4 n
  else [c]

/-- A text between quotes. -/
def quoted (s : String) : String := String.ofList ('"' :: s.toList.flatMap escaped ++ ['"'])

mutual

/-- A value as text. -/
def render : Json → String
  | null => "null"
  | flag b => if b then "true" else "false"
  | number literal => literal
  | text s => quoted s
  | list items => "[" ++ ",".intercalate (renderItems items) ++ "]"
  | object fields => "\x7b" ++ ",".intercalate (renderFields fields) ++ "\x7d"

def renderItems : List Json → List String
  | [] => []
  | item :: rest => render item :: renderItems rest

def renderFields : List (String × Json) → List String
  | [] => []
  | (key, value) :: rest => (quoted key ++ ":" ++ render value) :: renderFields rest

end

/-- A whole number. -/
def int (n : Int) : Json := .number (toString n)

/-! ## Reading -/

def isSpace (c : Char) : Bool := c == ' ' || c == '\t' || c == '\n' || c == '\r'

def skipSpace (cs : List Char) : List Char := cs.dropWhile isSpace

def hexValue? (c : Char) : Option Nat :=
  if c.isDigit then some (c.toNat - '0'.toNat)
  else if 'a' ≤ c && c ≤ 'f' then some (c.toNat - 'a'.toNat + 10)
  else if 'A' ≤ c && c ≤ 'F' then some (c.toNat - 'A'.toNat + 10)
  else none

/-- The code unit behind the four digits a text starts with. -/
def unit? : List Char → Option (Nat × List Char)
  | a :: b :: c :: d :: rest => do
    let n :=
      (((← hexValue? a) * 16 + (← hexValue? b)) * 16 + (← hexValue? c)) * 16 + (← hexValue? d)
    return (n, rest)
  | _ => none

def isHighUnit (n : Nat) : Bool := 0xd800 ≤ n && n < 0xdc00
def isLowUnit (n : Nat) : Bool := 0xdc00 ≤ n && n < 0xe000

/-- The character that stands for a code unit without its partner. -/
def replacement : Char := Char.ofNat 0xfffd

/-- The low code unit that a text starts with. -/
def lowUnit? : List Char → Option (Nat × List Char)
  | '\\' :: 'u' :: rest => do
    let (n, rest) ← unit? rest
    if isLowUnit n then some (n, rest) else none
  | _ => none

/-- The character behind its code. Two code units can make one character. -/
def coded? (cs : List Char) : Option (Char × List Char) := do
  let (n, rest) ← unit? cs
  if isHighUnit n then
    match lowUnit? rest with
    | some (low, rest) =>
      return (Char.ofNat (0x10000 + (n - 0xd800) * 0x400 + (low - 0xdc00)), rest)
    | none => return (replacement, rest)
  else if isLowUnit n then return (replacement, rest)
  else return (Char.ofNat n, rest)

/-- The character that a letter behind a backslash stands for. -/
def letter? (c : Char) : Option Char :=
  if c == '"' || c == '\\' || c == '/' then some c
  else if c == 'b' then some '\x08'
  else if c == 'f' then some '\x0c'
  else if c == 'n' then some '\n'
  else if c == 'r' then some '\r'
  else if c == 't' then some '\t'
  else none

/-- The rest of a text behind its opening quote. The first argument bounds the number of characters,
the second holds the characters so far, the last first. -/
def textRest : Nat → List Char → List Char → Option (String × List Char)
  | 0, _, _ => none
  | _ + 1, _, [] => none
  | fuel + 1, acc, c :: rest =>
    if c == '"' then some (String.ofList acc.reverse, rest)
    else if c.toNat < 0x20 then none
    else if c != '\\' then textRest fuel (c :: acc) rest
    else match rest with
      | 'u' :: digits => match coded? digits with
        | some (x, rest) => textRest fuel (x :: acc) rest
        | none => none
      | x :: rest => match letter? x with
        | some x => textRest fuel (x :: acc) rest
        | none => none
      | [] => none

/-- Digits, at least one. -/
def digits? (cs : List Char) : Option (List Char × List Char) :=
  match cs.span Char.isDigit with
  | ([], _) => none
  | found => some found

/-- The whole part of a number: a zero, or digits that start with another one. -/
def whole? : List Char → Option (List Char × List Char)
  | '0' :: rest => some (['0'], rest)
  | cs => digits? cs

/-- The part of a number behind the point. -/
def fraction? : List Char → Option (List Char × List Char)
  | '.' :: rest => (digits? rest).map fun (ds, rest) => ('.' :: ds, rest)
  | cs => some ([], cs)

/-- The sign of an exponent. -/
def sign : List Char → List Char × List Char
  | '+' :: rest => (['+'], rest)
  | '-' :: rest => (['-'], rest)
  | cs => ([], cs)

/-- The exponent of a number. -/
def exponent? : List Char → Option (List Char × List Char)
  | [] => some ([], [])
  | c :: rest =>
    if c == 'e' || c == 'E' then
      let (s, rest) := sign rest
      (digits? rest).map fun (ds, rest) => (c :: s ++ ds, rest)
    else some ([], c :: rest)

/-- A number. -/
def number? (cs : List Char) : Option (Json × List Char) := do
  let (minus, cs) := match cs with
    | '-' :: rest => (['-'], rest)
    | cs => ([], cs)
  let (w, cs) ← whole? cs
  let (f, cs) ← fraction? cs
  let (e, cs) ← exponent? cs
  return (.number (String.ofList (minus ++ w ++ f ++ e)), cs)

/-- One of the three words. -/
def word? (cs : List Char) : Option (Json × List Char) :=
  [("null", null), ("true", flag true), ("false", flag false)].findSome? fun (w, value) =>
    if w.toList.isPrefixOf cs then some (value, cs.drop w.length) else none

mutual

/-- A value. The first argument bounds the number of steps, the second how deep lists and objects
can be inside each other. -/
def value : Nat → Nat → List Char → Option (Json × List Char)
  | 0, _, _ => none
  | fuel + 1, depth, cs =>
    match skipSpace cs with
    | [] => none
    | c :: rest =>
      if c == '"' then (textRest fuel [] rest).map fun (s, rest) => (.text s, rest)
      else if c == '[' || c == '\x7b' then
        match depth with
        | 0 => none
        | depth + 1 =>
          match c == '[', skipSpace rest with
          | true, ']' :: rest => some (.list [], rest)
          | true, cs => items fuel depth [] cs
          | false, '\x7d' :: rest => some (.object [], rest)
          | false, cs => fields fuel depth [] cs
      else if c == '-' || c.isDigit then number? (c :: rest)
      else word? (c :: rest)

/-- The items of a list, up to its end; those so far come last first. -/
def items : Nat → Nat → List Json → List Char → Option (Json × List Char)
  | 0, _, _, _ => none
  | fuel + 1, depth, acc, cs =>
    match value fuel depth cs with
    | none => none
    | some (item, rest) => match skipSpace rest with
      | ',' :: rest => items fuel depth (item :: acc) rest
      | ']' :: rest => some (.list (item :: acc).reverse, rest)
      | _ => none

/-- The fields of an object, up to its end; those so far come last first. -/
def fields : Nat → Nat → List (String × Json) → List Char → Option (Json × List Char)
  | 0, _, _, _ => none
  | fuel + 1, depth, acc, cs =>
    match skipSpace cs with
    | '"' :: rest => match textRest fuel [] rest with
      | none => none
      | some (key, rest) => match skipSpace rest with
        | ':' :: rest => match value fuel depth rest with
          | none => none
          | some (value, rest) => match skipSpace rest with
            | ',' :: rest => fields fuel depth ((key, value) :: acc) rest
            | '\x7d' :: rest => some (.object ((key, value) :: acc).reverse, rest)
            | _ => none
        | _ => none
    | _ => none

end

/-- How deep lists and objects can be inside each other. -/
def maxDepth : Nat := 10000

/-- The first value of a text, and the rest. A bracket takes two steps and any other character at
most one, so the bound on the steps is never met. -/
def read? (cs : List Char) : Option (Json × List Char) := value (4 * cs.length + 4) maxDepth cs

/-- Whether a value ends by itself and not only where the next character does not belong to it. -/
def isBracketed : Json → Bool
  | list _ | object _ => true
  | _ => false

end Json

end Courtesy.Service
