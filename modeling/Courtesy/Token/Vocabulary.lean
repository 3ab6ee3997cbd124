import Courtesy.Token.Kind

/-!
# Vocabulary

The fixed words and phrases of the language, the relational phrases and the arithmetic words with
the operators they are emitted as.
-/

namespace Courtesy.Vocabulary

/-- Words, phrases and marks with a kind of their own. -/
def keywords : List (String × Kind) :=
  [("please define function", .define),
   ("please create", .create),
   ("please call", .call),
   ("thank you for printing", .print),
   ("thank you for checking if", .check),
   ("thank you for looping", .loop),
   ("thank you for returning", .giveBack),
   ("from", .fromWord),
   ("to", .toWord),
   ("while", .whileWord),
   ("true", .boolean),
   ("false", .boolean),
   ("equals", .equals),
   ("\x7b", .openBrace),
   ("\x7d", .closeBrace),
   ("(", .openParen),
   (")", .closeParen),
   (",", .comma)]

/-- The relational phrases and their operators. -/
def comparisons : List (String × String) :=
  [("equal to", "=="),
   ("greater then", ">"),
   ("less then", "<"),
   ("different from", "!="),
   ("greater or equal to", ">="),
   ("less or equal to", "<=")]

/-- The arithmetic words and their operators. -/
def arithmetic : List (String × String) :=
  [("add", "+"), ("sub", "-"), ("mul", "*"), ("div", "/")]

/-- Whether a token is one of the relational phrases. -/
def isRelational (t : String) : Bool := (comparisons.lookup t).isSome

/-- Whether a token is one of the arithmetic words. -/
def isArithmetic (t : String) : Bool := (arithmetic.lookup t).isSome

/-- Whether a token compares for equality or difference, the comparisons that all types allow. -/
def isEquality (t : String) : Bool := t == "equal to" || t == "different from"

/-- Whether a token is a truth value. -/
def isBoolean (t : String) : Bool := t == "true" || t == "false"

/-- The phrases of several words, each as its list of words, the longest phrase first and phrases
of one length in alphabetical order. -/
def phrases : List (List String) :=
  [["thank", "you", "for", "checking", "if"],
   ["thank", "you", "for", "returning"],
   ["please", "define", "function"],
   ["thank", "you", "for", "printing"],
   ["thank", "you", "for", "looping"],
   ["greater", "or", "equal", "to"],
   ["less", "or", "equal", "to"],
   ["different", "from"],
   ["please", "create"],
   ["greater", "then"],
   ["please", "call"],
   ["less", "then"],
   ["equal", "to"]]

end Courtesy.Vocabulary
