import Courtesy.Text.Chars

/-!
# Cutting and joining texts

`split` cuts a list of characters at every character of a class and keeps the empty pieces, so that
there is one piece more than there are cuts. Lines, path elements and words are read off it.
-/

namespace Courtesy.Text

/-- Puts a character in front of the first piece. -/
def consPiece (c : Char) : List (List Char) → List (List Char)
  | [] => [[c]]
  | w :: ws => (c :: w) :: ws

/-- The pieces of a text between the characters of the class `p`, empty ones included. -/
def split (p : Char → Bool) (cs : List Char) : List (List Char) :=
  cs.foldr (fun c ws => if p c then [] :: ws else consPiece c ws) [[]]

@[simp]
theorem split_nil (p : Char → Bool) : split p [] = [[]] := rfl

theorem split_cons (p : Char → Bool) (c : Char) (cs : List Char) :
    split p (c :: cs) = if p c then [] :: split p cs else consPiece c (split p cs) := rfl

/-- The text without the characters of `p` at its two ends. -/
def trimBy (p : Char → Bool) (cs : List Char) : List Char :=
  ((cs.dropWhile p).reverse.dropWhile p).reverse

/-- The text without the blanks at its two ends. -/
def trim (s : String) : String := String.ofList (trimBy isBlank s.toList)

/-- The maximal runs of characters that are not blank. -/
def words (cs : List Char) : List (List Char) := (split isBlank cs).filter (!·.isEmpty)

/-- The lines of a text; a line feed ends a line and belongs to none. -/
def lines (s : String) : List String := (split (· == '\n') s.toList).map String.ofList

/-- The lines of a text as a reader numbers them: trimmed, the blank ones left out. -/
def solidLines (ls : List String) : List String := (ls.map trim).filter (· ≠ "")

/-- Texts joined by single spaces. -/
def spaced (ts : List String) : String := " ".intercalate ts

/-- Texts, each closed by a line feed. -/
def unlines (ls : List String) : String := String.join (ls.map (· ++ "\n"))

/-- Whether `part` occurs somewhere in `s`. -/
def holds (part s : List Char) : Bool :=
  part.isPrefixOf s || match s with
    | [] => false
    | _ :: rest => holds part rest

/-- Whether the text `s` starts with `lead`. -/
def startsWith (lead s : String) : Bool := lead.toList.isPrefixOf s.toList

/-- Whether the text `s` ends with `tail`. -/
def endsWith (tail s : String) : Bool := tail.toList.isSuffixOf s.toList

/-- Whether `part` occurs somewhere in the text `s`. -/
def contains (part s : String) : Bool := holds part.toList s.toList

/-- The text without `tail` at its end, or the text itself when it does not end so. -/
def dropTail (tail s : String) : String :=
  if endsWith tail s then String.ofList (s.toList.take (s.toList.length - tail.toList.length))
  else s

/-- Upper-case ASCII letters made lower-case, all else kept. -/
def lowerAscii (s : String) : String := String.ofList (s.toList.map Char.toLower)

end Courtesy.Text
