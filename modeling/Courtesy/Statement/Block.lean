import Courtesy.Statement.Value

/-!
# Headers of blocks

Loops and checks open a block. Their headers yield the lines of code in front of the block and the
variables that the block starts with.
-/

namespace Courtesy.Statement

/-- The code in front of a block and the variables that its frame starts with. -/
structure Opening where
  code : List String
  vars : List Param := []
  deriving DecidableEq, Repr

/-- The lines of a header: the head of the block and its opening brace. -/
def headed (head : String) : List String := [head, "\x7b"]

/-- The tokens of a header from position `start` up to its opening brace, which ends the line. -/
def headerTokens (header : Header) (start : Nat) (tokens : List Token) :
    Except Fault (List Token) :=
  match Token.index? .openBrace tokens with
  | none => .error (.braceMissing header)
  | some brace =>
    match tokens.drop (brace + 1) with
    | extra :: _ => .error (.afterBrace extra.text header)
    | [] => .ok ((tokens.take brace).drop start)

/-- The name of the variable that counts a loop. -/
def counter : String := "i"

/-- `thank you for looping from START to END {` -/
def forLoop (scope : Scope) (tokens : List Token) : Except Fault Opening :=
  match Token.index? .fromWord tokens, Token.index? .toWord tokens with
  | some 1, some mid =>
    if mid < 1 then .error .forFormat
    else do
      let bounds ← headerTokens .forLoop 2 tokens
      let first := bounds.take (mid - 2)
      let last := bounds.drop (mid - 1)
      if first.isEmpty || last.isEmpty then .error .forBounds
      else if scope.isDeclared counter || scope.isFunction counter then .error .counterTaken
      else do
        let lo ← value scope .loopStart (Token.join first) .integer
        let hi ← value scope .loopEnd (Token.join last) .integer
        return ⟨headed s!"for (int {counter} = {lo}; {counter} <= {hi}; {counter}++)",
          [⟨counter, .integer⟩]⟩
  | _, _ => .error .forFormat

/-- `thank you for looping while CONDITION {` -/
def whileLoop (scope : Scope) (tokens : List Token) : Except Fault Opening :=
  if Token.index? .whileWord tokens ≠ some 1 then .error .whileFormat
  else do
    let cond ← condition scope .whileLoop (← headerTokens .whileLoop 2 tokens)
    return { code := headed ("while (" ++ cond ++ ")") }

/-- A loop is a counting one as soon as the word `from` occurs, else a conditional one. -/
def loop (scope : Scope) (tokens : List Token) : Except Fault Opening :=
  match tokens with
  | _ :: second :: _ =>
    if (Token.index? .fromWord tokens).isSome then forLoop scope tokens
    else if (Token.index? .whileWord tokens).isSome then whileLoop scope tokens
    else .error (.loopUnclear second.text)
  | _ => .error .loopIncomplete

/-- `thank you for checking if CONDITION {` -/
def ifStatement (scope : Scope) (tokens : List Token) : Except Fault Opening := do
  let cond ← condition scope .ifStatement (← headerTokens .ifStatement 1 tokens)
  return { code := headed ("if (" ++ cond ++ ")") }

end Courtesy.Statement
