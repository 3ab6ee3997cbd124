import Courtesy.Token

/-!
# Lowering

Checked expressions and conditions are lowered token by token: arithmetic words and relational
phrases become operators, all else is kept.
-/

namespace Courtesy.Target

/-- The operator that a token is emitted as; a token that is none is kept. -/
def symbol (token : String) : String :=
  match Vocabulary.arithmetic.lookup token with
  | some op => op
  | none => (Vocabulary.comparisons.lookup token).getD token

/-- A text with every operator word replaced. -/
def lower (text : String) : String := Text.spaced ((tokenize text).map symbol)

/-- The name under which a function is emitted: the entry point `main` becomes `Main`. -/
def methodName (name : String) : String := if name == "main" then "Main" else name

end Courtesy.Target
