import Courtesy.Yaml.Node
import Courtesy.Yaml.Scalar

/-!
# The values of scalars

A tag says what a scalar has to be; without one the text of a plain scalar decides and a quoted
scalar is text.
-/

namespace Courtesy.Yaml

/-- The tags with a meaning of their own. -/
def standardTag (name : String) : String := "tag:yaml.org,2002:" ++ name

/-! ## Text from bytes in base 64 -/

namespace Base64

/-- The value of a character. -/
def value? (c : Char) : Option Nat :=
  if 'A' ≤ c && c ≤ 'Z' then some (c.toNat - 'A'.toNat)
  else if 'a' ≤ c && c ≤ 'z' then some (c.toNat - 'a'.toNat + 26)
  else if '0' ≤ c && c ≤ '9' then some (c.toNat - '0'.toNat + 52)
  else if c == '+' then some 62
  else if c == '/' then some 63
  else none

/-- The bytes of groups of four characters; the last group may be padded. -/
def bytes? : List Char → Option (List UInt8)
  | [] => some []
  | [a, b, '=', '='] => do
    let n := (← value? a) * 64 + (← value? b)
    return [(n / 16).toUInt8]
  | [a, b, c, '='] => do
    let n := ((← value? a) * 64 + (← value? b)) * 64 + (← value? c)
    return [(n / 1024).toUInt8, (n / 4).toUInt8]
  | a :: b :: c :: d :: rest => do
    let n := (((← value? a) * 64 + (← value? b)) * 64 + (← value? c)) * 64 + (← value? d)
    return (n / 65536).toUInt8 :: (n / 256).toUInt8 :: n.toUInt8 :: (← bytes? rest)
  | _ => none

/-- The text that base 64 stands for; line breaks in it do not count. -/
def text? (s : String) : Option String := do
  let bytes ← bytes? (s.toList.filter fun c => c != '\n' && c != '\r')
  String.fromUTF8? ⟨bytes.toArray⟩

end Base64

namespace Scalar

/-- What a scalar stands for; none when its text does not fit its tag. -/
def ofTagged (tag text : String) (implicit : Bool) : Option Scalar :=
  if tag == "" then some (if implicit then resolve text else .text text)
  else if tag == standardTag "str" then some (.text text)
  else if tag == standardTag "binary" then (Base64.text? text).map .text
  else match resolve text with
    | .null => if tag == standardTag "null" then some .null else other tag text
    | .flag b => if tag == standardTag "bool" then some (.flag b) else other tag text
    | .integer n =>
      if tag == standardTag "int" then some (.integer n)
      else if tag == standardTag "float" then some (.decimal (.ofInt n))
      else other tag text
    | .decimal x => if tag == standardTag "float" then some (.decimal x) else other tag text
    | .time => if tag == standardTag "timestamp" then some .time else other tag text
    | .text _ => other tag text
where
  /-- A text with a tag that it does not fit: an unknown tag leaves it as it is. -/
  other (tag text : String) : Option Scalar :=
    if (["null", "bool", "int", "float", "timestamp"].map standardTag).contains tag then none
    else some (.text text)

end Scalar

namespace Node

/-- What a scalar node stands for; none for other nodes. -/
def scalar? : Node → Option Scalar
  | scalar tag text implicit => Scalar.ofTagged tag text implicit
  | _ => none

/-- A node as text. Whatever a scalar stands for, it can be taken by its text. -/
def text? (n : Node) : Option String := do
  match ← n.scalar? with
  | .null => return ""
  | .text s => return s
  | _ => match n with
    | scalar _ text _ => return text
    | _ => none

/-- A node as text that may be left out. -/
def optionalText? (n : Node) : Option (Option String) :=
  match n with
  | scalar tag text implicit =>
    let leftOut := tag == standardTag "null"
      || (tag == "" && (text == "null" || text == "~" || (text == "" && implicit)))
    if leftOut then do
      match ← n.scalar? with
      | .text s => return some s
      | .null => return none
      | _ => none
    else n.text?.map some
  | _ => none

/-- The least number of a 64-bit word with a sign. -/
def leastWord : Int := -(Nat.pow 2 63 : Nat)

/-- The whole part of a number as a 64-bit word; a number below the least word becomes that, and one
above the greatest is refused. -/
def wordOf? : Binary64 → Option Int
  | .nan => none
  | .infinite negative => if negative then some leastWord else none
  | .finite negative significand exponent =>
    let (num, den) := Binary64.ratio significand exponent
    if negative then some (max (-((num / den : Nat) : Int)) leastWord)
    else if num > Nat.pow 2 63 * den then none
    else if num / den ≥ Nat.pow 2 63 then some leastWord
    else some (num / den : Nat)

/-- A node as a 64-bit word. -/
def integer? (n : Node) : Option Int := do
  match ← n.scalar? with
  | .null => return 0
  | .integer n => if n < Nat.pow 2 63 then return n else none
  | .decimal x => wordOf? x
  | _ => none

/-- A node as a floating-point number. -/
def decimal? (n : Node) : Option Binary64 := do
  match ← n.scalar? with
  | .null => return .finite false 0 0
  | .integer n => return .ofInt n
  | .decimal x => return x
  | _ => none

/-- A node as a truth value. -/
def flag? (n : Node) : Option Bool := do
  match ← n.scalar? with
  | .null => return false
  | .flag b => return b
  | _ => none

/-- A node as a list of texts. -/
def texts? : Node → Option (List String)
  | sequence items => items.mapM text?
  | n => do
    match ← n.scalar? with
    | .null => return []
    | _ => none

/-! ## Records -/

/-- Whether a key stands for the pairs of other mappings. -/
def isMerge : Node → Bool
  | scalar tag text implicit => text == "<<" && (implicit || tag == standardTag "merge")
  | _ => false

/-- The pairs of a mapping. -/
def pairs? : Node → Option (List (Node × Node))
  | mapping pairs => some pairs
  | _ => none

/-- The mappings whose pairs a merge key brings in, in the order in which they are set: of several
the first counts most, so it comes last. -/
def merged? : Node → Option (List (List (Node × Node)))
  | sequence items => items.reverse.mapM pairs?
  | n => n.pairs?.map ([·])

/-- How each field of a record is set from a node. -/
abbrev Fields (α : Type) := List (String × (Node → α → Option α))

/-- Sets the fields of a record from the pairs of a mapping. A key must be known and must not occur
twice, but pairs that are merged in are counted by themselves. The first argument bounds the depth
and the number of pairs. -/
def setFields {α : Type} (fields : Fields α) :
    Nat → List String → List (Node × Node) → α → Option α
  | 0, _, _, _ => none
  | _ + 1, _, [], a => some a
  | fuel + 1, seen, (k, v) :: rest, a => do
    if k.isMerge then
      let a ← (← v.merged?).foldlM (fun a pairs => setFields fields fuel [] pairs a) a
      setFields fields fuel seen rest a
    else
      let name ← k.text?
      if seen.contains name then none
      else
        let set ← fields.lookup name
        setFields fields fuel (name :: seen) rest (← set v a)

mutual

/-- The number of nodes of a tree. -/
def size : Node → Nat
  | scalar _ _ _ => 1
  | sequence items => sizeItems items + 1
  | mapping pairs => sizePairs pairs + 1

def sizeItems : List Node → Nat
  | [] => 0
  | n :: ns => n.size + sizeItems ns

def sizePairs : List (Node × Node) → Nat
  | [] => 0
  | (k, v) :: rest => k.size + v.size + sizePairs rest

end

/-- A node as a record whose fields are all optional: what is left out is as in `zero`. -/
def record? {α : Type} (fields : Fields α) (zero : α) (n : Node) (a : α) : Option α :=
  match n with
  | mapping pairs => setFields fields (n.size + 1) [] pairs a
  | _ => do
    match ← n.scalar? with
    | .null => return zero
    | _ => none

end Node

end Courtesy.Yaml
