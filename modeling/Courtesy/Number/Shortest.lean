import Courtesy.Number.Binary64

/-!
# The shortest decimal

A finite number is written with the fewest decimal digits that read back as the same number, and of
those with the digits nearest to it. Exponents from -4 to 5 are written positionally, others with
the mark `e`, a sign and at least two digits.
-/

namespace Courtesy.Binary64

/-- The exponent of the first decimal digit of `num / den`. The first argument bounds the search. -/
def leadingExponent : Nat → Nat → Nat → Int
  | 0, _, _ => 0
  | fuel + 1, num, den =>
    if num < den then leadingExponent fuel (num * 10) den - 1
    else if 10 * den ≤ num then leadingExponent fuel num (den * 10) + 1
    else 0

/-- The two whole multiples of a power of ten next to `num / den`, in units of that power, the
nearer one first. -/
def neighbours (num den : Nat) (unit : Int) : Nat × Nat :=
  let (num, den) :=
    if unit < 0 then (num * Nat.pow 10 unit.natAbs, den) else (num, den * Nat.pow 10 unit.natAbs)
  let q := num / den
  if 2 * (num % den) < den then (q, q + 1)
  else if den < 2 * (num % den) then (q + 1, q)
  else if q % 2 = 0 then (q, q + 1) else (q + 1, q)

/-- The shortest digits, at least `count` of them, and the power of ten that they count. The first
argument bounds the number of digits. -/
def shortestFrom : Nat → Nat → Nat → Int → Nat × Int
  | 0, significand, _, exponent => (significand, exponent)
  | fuel + 1, significand, count, exponent =>
    let (num, den) := ratio significand exponent
    let unit := leadingExponent 1200 num den - (count : Int) + 1
    let (near, far) := neighbours num den unit
    if ofDecimal false near unit = finite false significand exponent then (near, unit)
    else if ofDecimal false far unit = finite false significand exponent then (far, unit)
    else shortestFrom fuel significand (count + 1) exponent

/-- The shortest digits of a positive finite number and the power of ten that they count. -/
def shortest (significand : Nat) (exponent : Int) : Nat × Int :=
  shortestFrom 17 significand 1 exponent

/-- Digits without the zeros at their end. -/
def stripZeros (digits : List Char) : List Char :=
  (digits.reverse.dropWhile (· == '0')).reverse

/-- An exponent with its sign and at least two digits. -/
def exponentText (e : Int) : List Char :=
  let digits := Nat.toDigits 10 e.natAbs
  (if e < 0 then '-' else '+') :: (if digits.length < 2 then '0' :: digits else digits)

/-- Digits with a point behind the first `n`; zeros fill what is missing. -/
def positional (digits : List Char) (n : Int) : List Char :=
  if n ≤ 0 then '0' :: '.' :: List.replicate n.natAbs '0' ++ digits
  else if digits.length ≤ n.natAbs then
    digits ++ List.replicate (n.natAbs - digits.length) '0'
  else digits.take n.natAbs ++ '.' :: digits.drop n.natAbs

/-- Digits behind a point after the first, with an exponent. -/
def scientific (digits : List Char) (e : Int) : List Char :=
  let mantissa := match digits with
    | d :: d' :: rest => d :: '.' :: d' :: rest
    | _ => digits
  mantissa ++ 'e' :: exponentText e

/-- The decimal text of a number. -/
def text : Binary64 → String
  | nan => "NaN"
  | infinite negative => if negative then "-Inf" else "+Inf"
  | finite negative significand exponent =>
    let sign := if negative then "-" else ""
    if significand = 0 then sign ++ "0"
    else
      let (digits, unit) := shortest significand exponent
      let shown := Nat.toDigits 10 digits
      let first := unit + (shown.length : Int) - 1
      let kept := stripZeros shown
      sign ++ String.ofList
        (if first < -4 || first ≥ 6 then scientific kept first else positional kept (first + 1))

end Courtesy.Binary64
