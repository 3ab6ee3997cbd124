import Courtesy.Text.Pieces
import Courtesy.Token.Vocabulary

/-!
# Lexemes

Each recogniser answers how many characters at the head of a text belong to a lexeme of its class.
`lexemeLength?` tries the classes in a fixed order and takes the first that answers: phrases,
closed strings, numbers, words, marks, open strings, ragged numbers, symbols, single characters.
`scan` walks a text once, passes over gaps and collects the lexemes with their byte offsets.
-/

namespace Courtesy

namespace Lexeme

open Courtesy.Text

/-- Whether a word that has just been read ends here. -/
def atWordEnd : List Char → Bool
  | [] => true
  | c :: _ => !isWordChar c

/-- How many digits a text starts with. -/
def digitCount (cs : List Char) : Nat := (cs.takeWhile Char.isDigit).length

/-- How many digits follow a point at the head of a text. -/
def fractionCount : List Char → Nat
  | '.' :: cs => digitCount cs
  | _ => 0

/-- The words of a phrase in order, with white space between them and the end of a word behind the
last. -/
def phraseLength? : List (List Char) → List Char → Option Nat
  | [], _ => none
  | [w], cs => if w.isPrefixOf cs && atWordEnd (cs.drop w.length) then some w.length else none
  | w :: ws, cs =>
    if w.isPrefixOf cs then
      let gap := ((cs.drop w.length).takeWhile isPhraseSpace).length
      if gap = 0 then none
      else (phraseLength? ws (cs.drop (w.length + gap))).map (w.length + gap + ·)
    else none

/-- The first phrase of the vocabulary that stands at the head of a text. -/
def anyPhraseLength? (cs : List Char) : Option Nat :=
  Vocabulary.phrases.findSome? fun p => phraseLength? (p.map String.toList) cs

/-- A quote, anything but quotes, and a quote. -/
def closedStringLength? : List Char → Option Nat
  | '"' :: cs =>
    let body := (cs.takeWhile (· != '"')).length
    if body < cs.length then some (body + 2) else none
  | _ => none

/-- A quote and all of the text behind it, when no further quote follows. -/
def openStringLength? : List Char → Option Nat
  | '"' :: cs => if cs.all (· != '"') then some (cs.length + 1) else none
  | _ => none

/-- An optional minus sign, digits, and a point with digits, which must not run into a word. When
the part behind the point does, the number ends before the point. -/
def numberLength? (cs : List Char) : Option Nat :=
  let sign := if cs.head? = some '-' then 1 else 0
  let whole := digitCount (cs.drop sign)
  let rest := cs.drop (sign + whole)
  let frac := fractionCount rest
  if whole = 0 then none
  else if frac ≠ 0 ∧ atWordEnd (rest.drop (frac + 1)) then some (sign + whole + (frac + 1))
  else if atWordEnd rest then some (sign + whole)
  else none

/-- A letter or an underscore and the word characters behind it. -/
def wordLength? : List Char → Option Nat
  | c :: cs => if isWordStart c then some ((cs.takeWhile isWordChar).length + 1) else none
  | [] => none

/-- The five marks are lexemes of their own. -/
def isMark (c : Char) : Bool := c == '{' || c == '}' || c == '(' || c == ')' || c == ','

/-- One mark. -/
def markLength? : List Char → Option Nat
  | c :: _ => if isMark c then some 1 else none
  | [] => none

/-- A digit that runs into a word. -/
def raggedLength? : List Char → Option Nat
  | c :: cs => if c.isDigit then some ((cs.takeWhile isWordChar).length + 1) else none
  | [] => none

/-- A character that belongs to no other class: no white space of a phrase, no mark, no quote, no
word character. -/
def isSymbol (c : Char) : Bool := !isPhraseSpace c && !isMark c && c != '"' && !isWordChar c

/-- A run of symbols. -/
def symbolsLength? (cs : List Char) : Option Nat :=
  match cs.takeWhile isSymbol with
  | [] => none
  | run => some run.length

/-- Any one character that is not white space. -/
def singleLength? : List Char → Option Nat
  | c :: _ => if isPhraseSpace c then none else some 1
  | [] => none

/-- The length of the lexeme at the head of a text. -/
def lexemeLength? (cs : List Char) : Option Nat :=
  anyPhraseLength? cs <|> closedStringLength? cs <|> numberLength? cs <|> wordLength? cs
    <|> markLength? cs <|> openStringLength? cs <|> raggedLength? cs <|> symbolsLength? cs
    <|> singleLength? cs

/-- The text of a lexeme. One that holds a space or a tab and is no string is a phrase, and its
words are joined by single spaces; any other is kept as it stands. -/
def normalise (cs : List Char) : String :=
  if cs.any (fun c => c == ' ' || c == '\t') && cs.head? != some '"' then
    spaced ((words cs).map String.ofList)
  else String.ofList cs

end Lexeme

/-- A piece of a line: its text and the number of bytes in front of it. -/
structure Lexeme where
  text : String
  offset : Nat
  deriving DecidableEq, Repr

namespace Lexeme

open Courtesy.Text

/-- The 1-based byte column at which a lexeme starts. -/
def column (l : Lexeme) : Nat := l.offset + 1

/-- The lexemes of a text that starts `offset` bytes into a line. The first argument says how many
characters of the last lexeme are still to be passed over. -/
def scanFrom : Nat → Nat → List Char → List Lexeme
  | _, _, [] => []
  | skip + 1, offset, c :: cs => scanFrom skip (offset + c.utf8Size) cs
  | 0, offset, c :: cs =>
    if isGap c then scanFrom 0 (offset + c.utf8Size) cs
    else match lexemeLength? (c :: cs) with
      | some (n + 1) =>
        ⟨normalise ((c :: cs).take (n + 1)), offset⟩ :: scanFrom n (offset + c.utf8Size) cs
      | _ => []

/-- The lexemes of a line. -/
def scan (line : String) : List Lexeme := scanFrom 0 0 line.toList

end Lexeme

end Courtesy
