import Courtesy.Statement.Fault
import Courtesy.Target.Lowering

/-!
# Values in statements

Expressions, conditions and calls as a statement uses them: checked against the scope and lowered.
-/

namespace Courtesy.Statement

/-- A value narrowed to an integer. -/
def narrowed (code : String) : String := "(int)(" ++ code ++ ")"

/-- The code of an expression of an expected type; a decimal that feeds an integer is cast. -/
def value (scope : Scope) (place : Place) (expr : String) (expected : ValueType) :
    Except Fault String :=
  match Expression.check scope.visible expr expected with
  | .error fault => .error (.expression place fault)
  | .ok e =>
    let code := Target.lower e.text
    .ok (if e.narrowing then narrowed code else code)

/-- The code of the condition of a block. -/
def condition (scope : Scope) (header : Header) (tokens : List Token) : Except Fault String :=
  if tokens.isEmpty then .error (.conditionMissing header)
  else
    let cond := Token.join tokens
    match Condition.check scope.visible cond with
    | .error fault => .error (.condition header fault)
    | .ok _ => .ok (Target.lower cond)

/-! ## Calls -/

/-- The place of the parenthesis that closes the first one, with `depth` of them open in front. -/
def closing? : Nat → List Token → Option Nat
  | _, [] => none
  | depth, t :: ts =>
    match t.kind with
    | .openParen => (closing? (depth + 1) ts).map (· + 1)
    | .closeParen => if depth = 1 then some 0 else (closing? (depth - 1) ts).map (· + 1)
    | _ => (closing? depth ts).map (· + 1)

/-- Puts a token in front of the first segment. -/
def consSegment (t : Token) : List (List Token) → List (List Token)
  | [] => [[t]]
  | s :: ss => (t :: s) :: ss

/-- How a token changes the number of open parentheses. -/
def depthChange (t : Token) : Int :=
  match t.kind with
  | .openParen => 1
  | .closeParen => -1
  | _ => 0

/-- The segments between the commas outside all parentheses, empty ones included, when `depth`
parentheses are open in front. -/
def segments : Int → List Token → List (List Token)
  | _, [] => [[]]
  | depth, t :: ts =>
    if t.kind = .comma ∧ depth = 0 then [] :: segments depth ts
    else consSegment t (segments (depth + depthChange t) ts)

/-- The arguments between the parentheses of a call; none when one of them is empty. Nothing at all
is no argument. -/
def arguments? (tokens : List Token) : Option (List (List Token)) :=
  if tokens.isEmpty then some []
  else
    let args := segments 0 tokens
    if args.any List.isEmpty then none else some args

/-- A checked call: the function and the code. -/
structure Call where
  callee : Signature
  code : String
  deriving DecidableEq, Repr

/-- The tokens between the parentheses of a call of `name`, which must close at the last token. -/
def callBody (name : String) (tokens : List Token) : Except Fault (List Token) :=
  match tokens with
  | [] => .error (.callUnopened name)
  | t :: _ =>
    if t.kind ≠ .openParen then .error (.callUnopened name)
    else match closing? 0 tokens with
      | none => .error .callUnclosed
      | some c =>
        match tokens.drop (c + 1) with
        | [] => .ok ((tokens.take c).drop 1)
        | extra :: _ => .error (.afterCall extra.text)

/-- The code of the arguments, each checked against its parameter. -/
def argumentCodes (scope : Scope) (f : Signature) (args : List (List Token)) :
    Except Fault (List String) :=
  (args.zip f.params).mapM fun (arg, p) =>
    value scope (.argument p.name f.name) (Token.join arg) p.type

/-- The call whose tokens start at the function's name. -/
def call (scope : Scope) (tokens : List Token) : Except Fault Call :=
  match tokens with
  | [] => .error .calleeMissing
  | nameToken :: rest =>
    let name := nameToken.text
    if nameToken.kind ≠ .identifier then .error (.calleeExpected name)
    else match scope.function? name with
      | none => .error (.functionMissing name)
      | some f => do
        let body ← callBody name rest
        match arguments? body with
        | none => .error (.argumentEmpty name)
        | some args =>
          if args.length ≠ f.params.length then
            .error (.argumentCount name f.params.length args.length)
          else do
            let codes ← argumentCodes scope f args
            return ⟨f, Target.methodName name ++ "(" ++ ", ".intercalate codes ++ ")"⟩

/-- Where the result of a call goes: into a variable or back to the caller. -/
inductive Receiver where
  | place (name : String)
  | caller
  deriving DecidableEq, Repr

/-- The code of a call whose result is used as a value of type `expected`. -/
def callValue (scope : Scope) (receiver : Receiver) (expected : ValueType) (tokens : List Token) :
    Except Fault String := do
  let c ← call scope tokens
  let f := c.callee
  if f.result = .void then
    match receiver with
    | .caller => .error (.voidReturned f.name)
    | .place x => .error (.voidAssigned f.name x)
  else if !f.result.compatible expected then
    match receiver with
    | .caller => .error (.resultMismatch f.name f.result expected)
    | .place x => .error (.resultUnassignable f.name f.result x expected)
  else if f.result = .decimal && expected = .integer then return "(int)" ++ c.code
  else return c.code

/-- The code of a value that is either a call or an expression. -/
def valueOrCall (scope : Scope) (place : Place) (receiver : Receiver) (expected : ValueType)
    (first : Token) (rest : List Token) : Except Fault String :=
  if first.kind = .call then callValue scope receiver expected rest
  else value scope place (Token.join (first :: rest)) expected

end Courtesy.Statement
