import Courtesy.Text.Pieces
import Courtesy.Token.Lexeme

/-!
# Atoms of an expression

Expressions are cut more finely than lines: an operator word may be written right in front of a
digit, a number needs no word end behind it, and whatever fits nowhere is an atom of one character.
-/

namespace Courtesy.Expression

open Courtesy.Text

/-- The operator words, as characters. -/
def isOperatorWord (cs : List Char) : Bool :=
  cs == ['a', 'd', 'd'] || cs == ['s', 'u', 'b'] || cs == ['m', 'u', 'l'] || cs == ['d', 'i', 'v']

/-- Parts an operator word from a digit right behind it, wherever the word does not continue
another one. The first argument says whether the character in front was a word character. -/
def respace : Bool → List Char → List Char
  | inWord, a :: b :: c :: d :: rest =>
    if !inWord && isOperatorWord [a, b, c] && d.isDigit then
      a :: b :: c :: ' ' :: d :: respace true rest
    else a :: respace (isWordChar a) (b :: c :: d :: rest)
  | _, cs => cs

/-- An optional minus sign, digits, and optionally a point with digits. -/
def numberLength? (cs : List Char) : Option Nat :=
  let sign := if cs.head? = some '-' then 1 else 0
  let whole := Lexeme.digitCount (cs.drop sign)
  let frac := Lexeme.fractionCount (cs.drop (sign + whole))
  if whole = 0 then none
  else if frac = 0 then some (sign + whole)
  else some (sign + whole + (frac + 1))

/-- The length of the atom at the head of a text: a number, a closed string, a word, or one
character that is not white space of a phrase. -/
def atomLength? (cs : List Char) : Option Nat :=
  numberLength? cs <|> Lexeme.closedStringLength? cs <|> Lexeme.wordLength? cs
    <|> Lexeme.singleLength? cs

/-- The atoms of a text. The first argument says how many characters of the last atom are still to
be passed over. -/
def atomsFrom : Nat → List Char → List (List Char)
  | _, [] => []
  | skip + 1, _ :: cs => atomsFrom skip cs
  | 0, c :: cs =>
    match atomLength? (c :: cs) with
    | some (n + 1) => (c :: cs).take (n + 1) :: atomsFrom n cs
    | _ => atomsFrom 0 cs

/-- The atoms of an expression. -/
def cut (expr : String) : List String :=
  (atomsFrom 0 (respace false expr.toList)).map String.ofList

end Courtesy.Expression
