/-!
# Reading positions

A cursor is what remains of a text together with the place it starts at: how many characters, how
many lines and how many columns lie in front.
-/

namespace Courtesy.Yaml

/-- The characters that end a line. -/
def isBreak (c : Char) : Bool :=
  c == '\n' || c == '\r' || c.toNat == 0x85 || c.toNat == 0x2028 || c.toNat == 0x2029

/-- A space or a tab. -/
def isBlank (c : Char) : Bool := c == ' ' || c == '\t'

/-- A blank or a line break. -/
def isGap (c : Char) : Bool := isBlank c || isBreak c

/-- The characters of the names of anchors, directives and tag handles. -/
def isNameChar (c : Char) : Bool := c.isAlphanum || c == '_' || c == '-'

/-- The characters that a document may hold. -/
def isAllowed (c : Char) : Bool :=
  let n := c.toNat
  n == 0x09 || n == 0x0a || n == 0x0d || (0x20 ≤ n && n ≤ 0x7e) || n == 0x85
    || (0xa0 ≤ n && n ≤ 0xfffd) || 0x10000 ≤ n

structure Mark where
  line : Nat := 0
  column : Nat := 0
  deriving DecidableEq, Repr, Inhabited

structure Cursor where
  rest : List Char
  mark : Mark := {}
  deriving DecidableEq, Repr, Inhabited

namespace Cursor

def column (c : Cursor) : Nat := c.mark.column

/-- The next character. -/
def peek? (c : Cursor) : Option Char := c.rest.head?

/-- Whether the next character is `x`. -/
def starts (c : Cursor) (x : Char) : Bool := c.rest.head? == some x

/-- Whether the next character satisfies `p`. -/
def next (p : Char → Bool) (c : Cursor) : Bool := c.rest.head?.any p

/-- Whether the text ends at the place `n` characters ahead or goes on with a character that
satisfies `p`. -/
def nextOrEnd (p : Char → Bool) (n : Nat) (c : Cursor) : Bool :=
  match c.rest.drop n with
  | [] => true
  | x :: _ => p x

/-- Behind `n` characters of the same line. -/
def advance (n : Nat) (c : Cursor) : Cursor :=
  ⟨c.rest.drop n, { c.mark with column := c.mark.column + n }⟩

/-- Behind the characters that satisfy `p`, none of which may be a line break. -/
def skipWhile (p : Char → Bool) (c : Cursor) : Cursor :=
  c.advance (c.rest.takeWhile p).length

/-- Behind a line break, with the text that it stands for: the separators of lines and paragraphs
stand for themselves and all other breaks for a line feed. -/
def newline (c : Cursor) : List Char × Cursor :=
  let after (n : Nat) : Cursor := ⟨c.rest.drop n, ⟨c.mark.line + 1, 0⟩⟩
  match c.rest with
  | [] => ([], c)
  | '\r' :: '\n' :: _ => (['\n'], after 2)
  | x :: _ =>
    if x.toNat == 0x2028 || x.toNat == 0x2029 then ([x], after 1) else (['\n'], after 1)

/-- Whether a document marker stands here: three equal characters at the start of a line, with a gap
or the end behind them. -/
def atMarker (x : Char) (c : Cursor) : Bool :=
  c.column == 0 && c.rest.take 3 == [x, x, x] && c.nextOrEnd isGap 3

end Cursor

end Courtesy.Yaml
