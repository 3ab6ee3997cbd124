import Courtesy.Text.Printable

/-!
# Quoted texts

A text in double quotes on one line: the quote and the backslash are escaped, seven control
characters have an escape of their own, other control characters are written by two hexadecimal
digits, and a character that is not printable by four or eight.
-/

namespace Courtesy.Text

/-- The lower-case hexadecimal digits of `n`, the last `width` of them. -/
def hex : (width n : Nat) → List Char
  | 0, _ => []
  | width + 1, n => hex width (n / 16) ++ [Nat.digitChar (n % 16)]

/-- One character of a quoted text. -/
def quoteChar (c : Char) : List Char :=
  let n := c.toNat
  if c == '"' || c == '\\' then ['\\', c]
  else if n == 7 then ['\\', 'a']
  else if n == 8 then ['\\', 'b']
  else if n == 9 then ['\\', 't']
  else if n == 10 then ['\\', 'n']
  else if n == 11 then ['\\', 'v']
  else if n == 12 then ['\\', 'f']
  else if n == 13 then ['\\', 'r']
  else if n < 0x20 || n == 0x7f then '\\' :: 'x' :: hex 2 n
  else if isPrintable c then [c]
  else if n < 0x10000 then '\\' :: 'u' :: hex 4 n
  else '\\' :: 'U' :: hex 8 n

/-- A text in double quotes. -/
def quote (s : String) : String := String.ofList ('"' :: s.toList.flatMap quoteChar ++ ['"'])

end Courtesy.Text
