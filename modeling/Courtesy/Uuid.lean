import Courtesy.Text.Quoted

/-!
# Identifiers of translations

An identifier is written as 32 hexadecimal digits in groups of 8, 4, 4, 4 and 12. The digits are
random but for two: the first of the third group is the version, 4, and the first of the fourth
group marks the layout.
-/

namespace Courtesy.Uuid

open Courtesy.Text

/-- Whether a character is one of the sixteen digits. -/
def isDigit (c : Char) : Bool := "0123456789abcdef".toList.contains c

/-- The identifier that the bits of a number give. -/
def ofNat (n : Nat) : String :=
  let group (width shift : Nat) : List Char := hex width (n / Nat.pow 16 shift)
  String.ofList (
    group 8 23 ++ '-' :: group 4 19 ++ '-' :: '4' :: group 3 16
      ++ '-' :: hex 1 (8 + n / Nat.pow 16 15 % 4) ++ group 3 12 ++ '-' :: hex 12 n)

/-- How many digits each group has. -/
def groups : List Nat := [8, 4, 4, 4, 12]

/-- Reads the groups of an identifier. -/
def hasGroups : List Nat → List Char → Bool
  | [], cs => cs.isEmpty
  | [width], cs => cs.length == width && cs.all isDigit
  | width :: rest, cs =>
    let group := cs.take width
    group.length == width && group.all isDigit
      && (cs.drop width).head? == some '-' && hasGroups rest (cs.drop (width + 1))

/-- Whether a text is an identifier. -/
def isText (s : String) : Bool := hasGroups groups s.toList

end Courtesy.Uuid
