/-!
# Binary floating point

A finite number is a significand times a power of two. A significand has at most 53 bits and an
exponent is at least -1074; a ratio is rounded to the nearest such number, and of two that are
equally near to the one with the even significand.
-/

namespace Courtesy

inductive Binary64 where
  | finite (negative : Bool) (significand : Nat) (exponent : Int)
  | infinite (negative : Bool)
  | nan
  deriving DecidableEq, Repr, Inhabited

namespace Binary64

def leastExponent : Int := -1074
def greatestExponent : Int := 971

/-- The ratio of two numbers as a whole number, the nearest or of two the even one. -/
def roundedRatio (num den : Nat) : Nat :=
  let q := num / den
  let r := num % den
  if 2 * r < den then q
  else if den < 2 * r then q + 1
  else if q % 2 = 0 then q else q + 1

/-- The rounded ratio of `num / den` to a power of two. -/
def scaledRatio (num den : Nat) (exponent : Int) : Nat :=
  if exponent < 0 then roundedRatio (num * Nat.pow 2 exponent.natAbs) den
  else roundedRatio num (den * Nat.pow 2 exponent.natAbs)

/-- The exponent at which the significand of `num / den` has 53 bits, as far as there is one. -/
def exponentOf (num den : Nat) : Int :=
  let guess : Int := (num.log2 : Int) - (den.log2 : Int) - 53
  let wide : Bool :=
    if guess < 0 then Nat.pow 2 53 * den ≤ num * Nat.pow 2 guess.natAbs
    else Nat.pow 2 53 * den * Nat.pow 2 guess.natAbs ≤ num
  max (if wide then guess + 1 else guess) leastExponent

/-- The number nearest to `num / den`. -/
def ofRatio (negative : Bool) (num den : Nat) : Binary64 :=
  if num = 0 then finite negative 0 0
  else
    let exponent := exponentOf num den
    let significand := scaledRatio num den exponent
    let (significand, exponent) :=
      if significand = Nat.pow 2 53 then (Nat.pow 2 52, exponent + 1) else (significand, exponent)
    if exponent > greatestExponent then infinite negative
    else if significand = 0 then finite negative 0 0
    else finite negative significand exponent

/-- The number nearest to `digits` times a power of ten. -/
def ofDecimal (negative : Bool) (digits : Nat) (exponent : Int) : Binary64 :=
  if exponent < 0 then ofRatio negative digits (Nat.pow 10 exponent.natAbs)
  else ofRatio negative (digits * Nat.pow 10 exponent.natAbs) 1

/-- The number nearest to an integer. -/
def ofInt (n : Int) : Binary64 := ofRatio (n < 0) n.natAbs 1

/-- The magnitude of a finite number as a ratio. -/
def ratio (significand : Nat) (exponent : Int) : Nat × Nat :=
  if exponent < 0 then (significand, Nat.pow 2 exponent.natAbs)
  else (significand * Nat.pow 2 exponent.natAbs, 1)

/-- Whether a number is at most zero. -/
def isAtMostZero : Binary64 → Bool
  | finite negative significand _ => negative || significand == 0
  | infinite negative => negative
  | nan => false

end Binary64

end Courtesy
