import Courtesy.Yaml.Cursor
import Courtesy.Yaml.Scalar

/-!
# Writing documents

A document is written in block style. A text is written plainly if it reads back as the same text.
A text that would read back as something else is put between double quotes, one with a character
that is special in a plain scalar between single quotes, and one with line feeds becomes a literal
block. Long lines are folded at single spaces.
-/

namespace Courtesy.Yaml

inductive Document where
  | text (s : String)
  | flag (b : Bool)
  | number (n : Int)
  | sequence (items : List Document)
  | mapping (fields : List (String × Document))
  deriving Repr, Inhabited

namespace Style

/-- The column behind which a line is folded. -/
def width : Nat := 80

/-- The characters that can stand in a document as they are; the others are escaped. -/
def isPrintable (c : Char) : Bool :=
  let n := c.toNat
  n == 0x0a || (0x20 ≤ n && n ≤ 0x7e) || (0xa0 ≤ n && n ≤ 0xfffd && n != 0xfeff)

/-! ## What a text allows -/

/-- Whether a character opens something at the start of a scalar. -/
def opensBlock (c : Char) (gapFollows : Bool) : Bool :=
  "#,[]\x7b\x7d&*!|>'\"%@\x60".toList.contains c
    || ((c == '?' || c == ':' || c == '-') && gapFollows)

/-- Whether a plain scalar would end or turn into something else behind its first character. The
first argument is the character in front. -/
def breaksOff : Char → List Char → Bool
  | _, [] => false
  | before, c :: cs =>
    (c == ':' && cs.head?.all isBlank) || (c == '#' && isGap before) || breaksOff c cs

/-- Whether a text holds the first kind of character directly in front of the second. -/
def adjoins (p q : Char → Bool) : List Char → Bool
  | a :: b :: rest => (p a && q b) || adjoins p q (b :: rest)
  | _ => false

def isSpace (c : Char) : Bool := c == ' '

/-- Whether a text could be taken for a document marker. -/
def marksDocument (cs : List Char) : Bool :=
  cs.take 3 == ['-', '-', '-'] || cs.take 3 == ['.', '.', '.']

/-- Whether a text can stand without quotes in a block. -/
def allowsPlain (cs : List Char) : Bool :=
  match cs with
  | [] => true
  | c :: rest =>
    !marksDocument cs
      && !opensBlock c (rest.head?.all isBlank)
      && !breaksOff c rest
      && cs.all (fun c => isPrintable c && !isBreak c)
      && !isSpace c && !cs.getLast?.any isSpace

/-- Whether a text can stand between single quotes. -/
def allowsSingle (cs : List Char) : Bool :=
  cs.all isPrintable && !adjoins isBreak isSpace cs && !adjoins isSpace isBreak cs

/-- Whether a text can be a literal block. -/
def allowsLiteral (cs : List Char) : Bool :=
  !cs.isEmpty && cs.all isPrintable && !adjoins isSpace isBreak cs && !cs.getLast?.any isSpace

/-! ## Numbers in base sixty -/

/-- Groups of one or two digits below sixty, each behind a colon, and perhaps a fraction. The first
argument says whether a group has been read. -/
def isSexagesimalTail : (any : Bool) → List Char → Bool
  | any, [] => any
  | _, ':' :: a :: b :: rest =>
    if a.isDigit && b.isDigit then a ≤ '5' && isSexagesimalTail true rest
    else a.isDigit && isSexagesimalTail true (b :: rest)
  | _, [':', a] => a.isDigit
  | any, '.' :: rest => any && rest.all fun c => c.isDigit || c == '_'
  | _, _ => false

/-- Whether other readers could take a text for a number in base sixty. -/
def isSexagesimal (cs : List Char) : Bool :=
  match (Scalar.unsigned cs).2 with
  | c :: rest =>
    c.isDigit && isSexagesimalTail false (rest.dropWhile fun c => c.isDigit || c == '_')
  | [] => false

/-! ## The styles -/

/-- A new line at an indentation. -/
def newLine (indent : Nat) : List Char := '\n' :: List.replicate indent ' '

/-- The characters of a plain scalar from a column on; `spaced` says that a space is in front. -/
def plain (indent : Nat) : (column : Nat) → (spaced : Bool) → List Char → List Char
  | _, _, [] => []
  | column, spaced, c :: cs =>
    if c == ' ' then
      if !spaced && column > width && cs.head? != some ' ' then
        newLine indent ++ plain indent indent true cs
      else c :: plain indent (column + 1) true cs
    else c :: plain indent (column + 1) false cs

/-- The characters between single quotes from a column on; `first` says that none is in front and
`broken` that a line break is. -/
def single (indent : Nat) :
    (first : Bool) → (column : Nat) → (spaced broken : Bool) → List Char → List Char
  | _, _, _, _, [] => []
  | first, column, spaced, broken, c :: cs =>
    if c == ' ' then
      if !spaced && column > width && !first && !cs.isEmpty && cs.head? != some ' ' then
        newLine indent ++ single indent false indent true broken cs
      else c :: single indent false (column + 1) true broken cs
    else if isBreak c then c :: single indent false 0 spaced true cs
    else
      let lead := if broken then List.replicate (indent - column) ' ' else []
      let column := if broken then max column indent else column
      let shown := if c == '\x27' then ['\x27', '\x27'] else [c]
      lead ++ shown ++ single indent false (column + shown.length) false false cs

/-- The letter that stands for a character behind a backslash. -/
def letter? (n : Nat) : Option Char :=
  [(0x00, '0'), (0x07, 'a'), (0x08, 'b'), (0x09, 't'), (0x0a, 'n'), (0x0b, 'v'), (0x0c, 'f'),
   (0x0d, 'r'), (0x1b, 'e'), (0x22, '"'), (0x5c, '\\'), (0x85, 'N'), (0xa0, '_'), (0x2028, 'L'),
   (0x2029, 'P')].lookup n

/-- The last `count` hexadecimal digits of a number, in capitals. -/
def hexDigits : (count : Nat) → Nat → List Char
  | 0, _ => []
  | count + 1, n => hexDigits count (n / 16) ++ [(Nat.digitChar (n % 16)).toUpper]

/-- A character behind a backslash. -/
def escaped (c : Char) : List Char :=
  let n := c.toNat
  match letter? n with
  | some x => ['\\', x]
  | none =>
    if n ≤ 0xff then '\\' :: 'x' :: hexDigits 2 n
    else if n ≤ 0xffff then '\\' :: 'u' :: hexDigits 4 n
    else '\\' :: 'U' :: hexDigits 8 n

/-- The characters between double quotes from a column on. -/
def double (indent : Nat) :
    (first : Bool) → (column : Nat) → (spaced : Bool) → List Char → List Char
  | _, _, _, [] => []
  | first, column, spaced, c :: cs =>
    if !isPrintable c || isBreak c || c == '"' || c == '\\' then
      let shown := escaped c
      shown ++ double indent false (column + shown.length) false cs
    else if c == ' ' then
      if !spaced && column > width && !first && !cs.isEmpty then
        let mark := if cs.head? == some ' ' then ['\\'] else []
        newLine indent ++ mark ++ double indent false (indent + mark.length) true cs
      else c :: double indent false (column + 1) true cs
    else c :: double indent false (column + 1) false cs

/-- The lines of a literal block; `start` says that a line starts here. -/
def literal (indent : Nat) : (start : Bool) → List Char → List Char
  | _, [] => []
  | start, c :: cs =>
    if isBreak c then c :: literal indent true cs
    else (if start then List.replicate indent ' ' else []) ++ c :: literal indent false cs

/-- The header of a literal block: an indentation if the text itself starts with a gap, and how the
line breaks at its end are kept. -/
def literalHeader (cs : List Char) : List Char :=
  let hint := if cs.head?.any fun c => isSpace c || isBreak c then ['2'] else []
  let chomp := match cs.reverse with
    | [] => ['-']
    | [c] => if isBreak c then ['+'] else ['-']
    | c :: d :: _ => if !isBreak c then ['-'] else if isBreak d then ['+'] else []
  '|' :: hint ++ chomp

/-- A text as a scalar that starts at a column, its further lines at an indentation. -/
def scalar (indent column : Nat) (s : String) : List Char :=
  let cs := s.toList
  let readsBack := Scalar.resolve s == .text s && !isSexagesimal cs
  if cs.contains '\n' then
    if allowsLiteral cs then literalHeader cs ++ '\n' :: literal indent true cs
    else '"' :: double indent true (column + 1) false cs ++ ['"']
  else if !readsBack then '"' :: double indent true (column + 1) false cs ++ ['"']
  else if allowsPlain cs then plain indent column false cs
  else if allowsSingle cs then
    '\x27' :: single indent true (column + 1) false false cs ++ ['\x27']
  else '"' :: double indent true (column + 1) false cs ++ ['"']

end Style

/-! ## Documents -/

namespace Document

/-- A line that ends, unless it has ended already. -/
def lineEnd (cs : List Char) : List Char := if cs.getLast?.any isBreak then cs else cs ++ ['\n']

mutual

/-- A value behind a mark that ends at a column, its parent being indented by `indent`. A sequence
in a mapping is indented like the mapping. -/
def value (indent column : Nat) : Document → List Char
  | text s => lineEnd (' ' :: Style.scalar (indent + 2) (column + 1) s)
  | flag b => (if b then " true\n" else " false\n").toList
  | number n => ' ' :: (toString n).toList ++ ['\n']
  | sequence [] => " []\n".toList
  | mapping [] => " \x7b\x7d\n".toList
  | sequence items => '\n' :: itemLines indent items
  | mapping fields => '\n' :: fieldLines (indent + 2) (indent + 2) fields

/-- The lines of a sequence. -/
def itemLines (indent : Nat) : List Document → List Char
  | [] => []
  | item :: rest =>
    List.replicate indent ' ' ++ '-' :: itemValue indent item ++ itemLines indent rest

/-- An item behind its dash. The first field of a mapping stands on the same line. -/
def itemValue (indent : Nat) : Document → List Char
  | mapping (f :: fs) => ' ' :: fieldLines 0 (indent + 2) (f :: fs)
  | sequence (d :: ds) => '\n' :: itemLines (indent + 2) (d :: ds)
  | text s => lineEnd (' ' :: Style.scalar (indent + 2) (indent + 2) s)
  | flag b => (if b then " true\n" else " false\n").toList
  | number n => ' ' :: (toString n).toList ++ ['\n']
  | sequence [] => " []\n".toList
  | mapping [] => " \x7b\x7d\n".toList

/-- The lines of a mapping; `lead` spaces are put in front of the first. -/
def fieldLines (lead indent : Nat) : List (String × Document) → List Char
  | [] => []
  | (k, v) :: rest =>
    let key := Style.scalar indent indent k
    List.replicate lead ' ' ++ key ++ ':' :: value indent (indent + key.length + 1) v
      ++ fieldLines indent indent rest

end

/-- The text of a document, which is a mapping at its top. -/
def render : Document → String
  | mapping (f :: fs) => String.ofList (fieldLines 0 0 (f :: fs))
  | sequence (d :: ds) => String.ofList (itemLines 0 (d :: ds))
  | d => String.ofList ((value 0 0 d).drop 1)

end Document

end Courtesy.Yaml
