import Courtesy.Text.Chars
import Courtesy.ValueType

/-!
# Shapes of literals and names

Whole texts that read as a number, a string or an identifier.
-/

namespace Courtesy.Literal

open Courtesy.Text

/-- The two shapes of a numeric literal. -/
inductive NumberShape where
  | whole
  | fractional
  deriving DecidableEq, Repr

/-- A text without one leading minus sign. -/
def unsigned : List Char → List Char
  | '-' :: cs => cs
  | cs => cs

/-- Whether a list is a non-empty run of digits. -/
def isDigits (cs : List Char) : Bool := !cs.isEmpty && cs.all Char.isDigit

/-- The shape of a numeric literal: an optional minus sign, digits, and optionally a point followed
by digits. Anything else has no shape. -/
def numberShape? (s : String) : Option NumberShape :=
  let cs := unsigned s.toList
  let whole := cs.takeWhile Char.isDigit
  if whole.isEmpty then none
  else match cs.dropWhile Char.isDigit with
    | [] => some .whole
    | '.' :: frac => if isDigits frac then some .fractional else none
    | _ => none

/-- Whether a text is a numeric literal. -/
def isNumber (s : String) : Bool := (numberShape? s).isSome

/-- Whether a text is a numeric literal with a fractional part. -/
def isDecimal (s : String) : Bool := numberShape? s == some .fractional

/-- Whether a text is a numeric literal without a fractional part. -/
def isInteger (s : String) : Bool := numberShape? s == some .whole

/-- The type of a numeric literal; whatever is not a decimal literal counts as an integer. -/
def numberType (s : String) : ValueType := if isDecimal s then .decimal else .integer

/-- Whether a text is a string literal: it starts and ends with a quote of its own, and there is no
line feed in between. -/
def isString (s : String) : Bool :=
  match s.toList with
  | '"' :: cs => cs.getLast? == some '"' && cs.dropLast.all (· != '\n')
  | _ => false

/-- Whether a text has the shape of an identifier. -/
def isIdentifier (s : String) : Bool :=
  match s.toList with
  | c :: cs => isWordStart c && cs.all isWordChar
  | [] => false

theorem isNumber_eq (s : String) : isNumber s = (isInteger s || isDecimal s) := by
  unfold isNumber isInteger isDecimal
  cases numberShape? s with
  | none => rfl
  | some shape => cases shape <;> rfl

end Courtesy.Literal
