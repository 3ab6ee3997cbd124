import Courtesy.Number.Binary64
import Courtesy.Text.Pieces

/-!
# The values of plain scalars

A plain scalar is null, a truth value, a number, a point in time, or else text.
-/

namespace Courtesy.Yaml

open Courtesy.Text

inductive Scalar where
  | null
  | flag (b : Bool)
  | integer (n : Int)
  | decimal (x : Binary64)
  | time
  | text (s : String)
  deriving DecidableEq, Repr, Inhabited

namespace Scalar

/-- The words with a fixed meaning. -/
def words : List (String × Scalar) :=
  (["y", "Y", "yes", "Yes", "YES", "true", "True", "TRUE", "on", "On", "ON"].map (·, flag true))
  ++ (["n", "N", "no", "No", "NO", "false", "False", "FALSE", "off", "Off", "OFF"].map
      (·, flag false))
  ++ (["", "~", "null", "Null", "NULL"].map (·, null))
  ++ ([".nan", ".NaN", ".NAN"].map (·, decimal .nan))
  ++ ([".inf", ".Inf", ".INF", "+.inf", "+.Inf", "+.INF"].map (·, decimal (.infinite false)))
  ++ (["-.inf", "-.Inf", "-.INF"].map (·, decimal (.infinite true)))

/-! ## Numbers -/

/-- The value of a digit in bases up to sixteen. -/
def digit? (base : Nat) (c : Char) : Option Nat :=
  let n :=
    if '0' ≤ c && c ≤ '9' then c.toNat - '0'.toNat
    else if 'a' ≤ c && c ≤ 'f' then c.toNat - 'a'.toNat + 10
    else if 'A' ≤ c && c ≤ 'F' then c.toNat - 'A'.toNat + 10
    else base
  if n < base then some n else none

/-- The number that digits write in a base; there has to be a digit. -/
def natural? (base : Nat) (digits : List Char) : Option Nat :=
  if digits.isEmpty then none
  else digits.foldlM (fun n c => (digit? base c).map (n * base + ·)) 0

/-- The number that digits write, their base told by what they start with. -/
def prefixed? : List Char → Option Nat
  | '0' :: 'x' :: ds | '0' :: 'X' :: ds => natural? 16 ds
  | '0' :: 'b' :: ds | '0' :: 'B' :: ds => natural? 2 ds
  | '0' :: 'o' :: ds | '0' :: 'O' :: ds => natural? 8 ds
  | '0' :: d :: ds => natural? 8 (d :: ds)
  | ds => natural? 10 ds

/-- A text without the sign it may start with, and whether that is a minus. -/
def unsigned : List Char → Bool × List Char
  | '-' :: cs => (true, cs)
  | '+' :: cs => (false, cs)
  | cs => (false, cs)

/-- An integer that a machine word holds, with or without a sign. An unsigned word takes no sign in
front of it. -/
def integer? (cs : List Char) : Option Int := do
  let (negative, digits) := unsigned cs
  let n ← prefixed? digits
  let signed := digits.length < cs.length
  if negative then (if n ≤ Nat.pow 2 63 then some (-(n : Int)) else none)
  else if n < Nat.pow 2 63 then some n
  else if !signed && n < Nat.pow 2 64 then some n
  else none

/-- The digits of a decimal fraction in front of and behind its point, and the rest. At least one
digit is needed, and `lead` says whether one is needed in front of the point. -/
def fraction? (cs : List Char) : Option (List Char × List Char × List Char) :=
  let whole := cs.takeWhile Char.isDigit
  match cs.dropWhile Char.isDigit with
  | '.' :: rest =>
    let part := rest.takeWhile Char.isDigit
    if whole.isEmpty && part.isEmpty then none else some (whole, part, rest.dropWhile Char.isDigit)
  | rest => if whole.isEmpty then none else some (whole, [], rest)

/-- The exponent at the end of a decimal fraction, zero when there is none. -/
def exponent? : List Char → Option Int
  | [] => some 0
  | c :: cs =>
    if c == 'e' || c == 'E' then
      let (negative, digits) := unsigned cs
      (natural? 10 digits).map fun n => if negative then -(n : Int) else n
    else none

/-- The nearest binary number to digits with an exponent. Far beyond the range the digits no longer
matter, so the exponent is bounded. -/
def nearest (negative : Bool) (digits : Nat) (exponent : Int) (length : Nat) : Binary64 :=
  let bound : Int := 400 + (length : Int)
  if digits = 0 then .finite negative 0 0
  else .ofDecimal negative digits (max (-bound) (min bound exponent))

/-- A decimal fraction whose magnitude is not too large. -/
def decimal? (cs : List Char) : Option Binary64 := do
  let (negative, cs) := unsigned cs
  let (whole, part, rest) ← fraction? cs
  let e ← exponent? rest
  let digits ← natural? 10 (whole ++ part)
  match nearest negative digits (e - part.length) (whole ++ part).length with
  | .infinite _ => none
  | x => some x

/-! ## Points in time -/

/-- One or two digits, and the rest. -/
def shortNumber? : List Char → Option (Nat × List Char)
  | a :: b :: rest =>
    if a.isDigit then
      if b.isDigit then some ((a.toNat - '0'.toNat) * 10 + (b.toNat - '0'.toNat), rest)
      else some (a.toNat - '0'.toNat, b :: rest)
    else none
  | [a] => if a.isDigit then some (a.toNat - '0'.toNat, []) else none
  | [] => none

/-- The rest behind a given character. -/
def after? (c : Char) : List Char → Option (List Char)
  | x :: rest => if x == c then some rest else none
  | [] => none

def isLeap (year : Nat) : Bool := year % 4 == 0 && (year % 100 != 0 || year % 400 == 0)

/-- The number of days of a month. -/
def daysIn (month year : Nat) : Nat :=
  if month == 2 then (if isLeap year then 29 else 28)
  else if month == 4 || month == 6 || month == 9 || month == 11 then 30
  else 31

/-- A date of a four-digit year, and the rest. -/
def date? (cs : List Char) : Option (List Char) := do
  if (cs.takeWhile Char.isDigit).length ≠ 4 then none
  else
    let year ← natural? 10 (cs.take 4)
    let (month, rest) ← shortNumber? (← after? '-' (cs.drop 4))
    let (day, rest) ← shortNumber? (← after? '-' rest)
    if 1 ≤ month && month ≤ 12 && 1 ≤ day && day ≤ daysIn month year then some rest else none

/-- A time of day with perhaps a fraction of a second, and the rest. -/
def clock? (cs : List Char) : Option (List Char) := do
  let (hour, rest) ← shortNumber? cs
  let (minute, rest) ← shortNumber? (← after? ':' rest)
  let (second, rest) ← shortNumber? (← after? ':' rest)
  if hour < 24 && minute < 60 && second < 60 then
    match rest with
    | c :: d :: more =>
      if (c == '.' || c == ',') && d.isDigit then some (more.dropWhile Char.isDigit) else some rest
    | _ => some rest
  else none

/-- Whether a text is a time zone: `Z`, or a signed offset in hours and minutes. -/
def isZone : List Char → Bool
  | ['Z'] => true
  | [s, a, b, ':', c, d] =>
    (s == '+' || s == '-') && [a, b, c, d].all Char.isDigit
      && (natural? 10 [a, b]).any (· ≤ 24) && (natural? 10 [c, d]).any (· ≤ 60)
  | _ => false

/-- Whether a text is a point in time: a date, alone, with a time of day behind blanks, or with a
time of day and a zone behind a `T`. -/
def isTime (cs : List Char) : Bool :=
  match date? cs with
  | none => false
  | some [] => true
  | some (c :: rest) =>
    if c == 'T' || c == 't' then (clock? rest).any isZone
    else if c == ' ' then (clock? (rest.dropWhile (· == ' '))).any List.isEmpty
    else false

/-! ## Resolution -/

/-- What the text of a plain scalar stands for. -/
def resolve (s : String) : Scalar :=
  match words.lookup s with
  | some v => v
  | none =>
    match s.toList with
    | '.' :: _ => match decimal? s.toList with
      | some x => decimal x
      | none => text s
    | c :: _ =>
      if c.isDigit || c == '+' || c == '-' then
        if isTime s.toList then time
        else
          let bare := s.toList.filter (· != '_')
          match integer? bare with
          | some n => integer n
          | none => match decimal? bare with
            | some x => decimal x
            | none => text s
      else text s
    | [] => text s

end Scalar

end Courtesy.Yaml
