import Courtesy.Scope
import Courtesy.Token

/-!
# Conditions

A condition takes its type from its first operand. A boolean condition is one operand or two that
are compared for equality; a numeric one has an arithmetic side on either hand of one relational
phrase; a text one compares a variable with a variable or a string literal.
-/

namespace Courtesy.Condition

/-- The two sides of a relational phrase. -/
inductive Side where
  | left
  | right
  deriving DecidableEq, Repr

def Side.name : Side → String
  | left => "left"
  | right => "right"

/-- Why a text is no condition. -/
inductive Fault where
  | empty
  | undeclared (name : String)
  | notAnOperand (token : String)
  | unsupportedType (type : ValueType)
  | unknownVariable (name : String)
  | wrongType (name : String) (type expected : ValueType)
  | notNumeric (name : String) (type : ValueType)
  | notBoolean (token : String)
  | booleanOperator (token : String)
  | booleanShape
  | noRelation
  | manyRelations (token : String) (count : Nat)
  | missingSide (side : Side)
  | operatorFirst (token : String)
  | notAnOperator (token : String)
  | operatorLast (token : String)
  | textOperator (token : String)
  | textSide (side : Side) (tokens : String)
  | notAText (token : String)
  deriving DecidableEq, Repr

namespace Fault

/-- The token that is blamed, empty when there is none. -/
def blame : Fault → String
  | empty | unsupportedType _ | booleanShape | noRelation | missingSide _ => ""
  | undeclared t | notAnOperand t | unknownVariable t | wrongType t _ _ | notNumeric t _
  | notBoolean t | booleanOperator t | manyRelations t _ | operatorFirst t | notAnOperator t
  | operatorLast t | textOperator t | textSide _ t | notAText t => t

/-- The wording of a fault. -/
def message : Fault → String
  | empty => "Empty condition"
  | undeclared x => s!"Unknown or undeclared variable: '{x}'"
  | notAnOperand t => s!"Expected value or variable, got '{t}'"
  | unsupportedType type => s!"Unsupported variable type '{type.name}'"
  | unknownVariable x => s!"Variable '{x}' not found in current scope"
  | wrongType x type expected =>
    s!"Variable '{x}' is of type '{type.name}', expected '{expected.name}'"
  | notNumeric x type =>
    s!"Variable '{x}' is of type '{type.name}', expected numeric type (integer or decimal)"
  | notBoolean t => s!"Expected boolean variable or literal, got '{t}'"
  | booleanOperator t => s!"Invalid operator for boolean: '{t}'"
  | booleanShape =>
    "Invalid boolean condition syntax: expected a boolean operand, or 'operand equal to|different from operand'"
  | noRelation => "Missing or invalid logical operator"
  | manyRelations _ count =>
    s!"Condition must contain exactly one relational operator, found {count}"
  | missingSide side => s!"Missing {side.name} operand in condition"
  | operatorFirst t => s!"Expected value or variable, got operator '{t}'"
  | notAnOperator t => s!"Expected operator, got '{t}'"
  | operatorLast t => s!"Expression ends with operator '{t}'"
  | textOperator _ => "Only 'equal to' and 'different from' are allowed for text"
  | textSide side ts => s!"Invalid {side.name} side text operand: '{ts}'"
  | notAText t => s!"Expected string literal or text variable after operator, got '{t}'"

end Fault

/-- The tokens on either hand of the one relational phrase, and the phrase. -/
structure Relation where
  left : List String
  operator : String
  right : List String
  deriving DecidableEq, Repr

/-- Parts tokens at their one relational phrase. -/
def relation (tokens : List String) : Except Fault Relation :=
  match tokens.findIdx? Vocabulary.isRelational with
  | none => .error .noRelation
  | some i =>
    let operator := tokens.getD i ""
    let count := tokens.countP Vocabulary.isRelational
    if count > 1 then .error (.manyRelations operator count)
    else .ok ⟨tokens.take i, operator, tokens.drop (i + 1)⟩

/-- A variable of a given type. -/
def variableOf (vars : Variables) (expected : ValueType) (name : String) : Except Fault Unit :=
  match vars.lookup name with
  | none => .error (.unknownVariable name)
  | some type => if type = expected then .ok () else .error (.wrongType name type expected)

/-- A truth value or a boolean variable. -/
def booleanOperand (vars : Variables) (token : String) : Except Fault Unit :=
  if Vocabulary.isBoolean token then .ok ()
  else if Literal.isIdentifier token then variableOf vars .boolean token
  else .error (.notBoolean token)

/-- One boolean operand, or two that are compared for equality or difference. -/
def checkBoolean (vars : Variables) : List String → Except Fault Unit
  | [a] => booleanOperand vars a
  | [a, operator, b] => do
    booleanOperand vars a
    if Vocabulary.isEquality operator then booleanOperand vars b
    else .error (.booleanOperator operator)
  | _ => .error .booleanShape

/-- A number or a numeric variable that is no arithmetic word. -/
def numericOperand (vars : Variables) (token : String) : Except Fault Unit :=
  if Vocabulary.isArithmetic token then .error (.operatorFirst token)
  else if Literal.isNumber token then .ok ()
  else if Literal.isIdentifier token then
    match vars.lookup token with
    | none => .error (.unknownVariable token)
    | some type => if type.isNumeric then .ok () else .error (.notNumeric token type)
  else .error (.notAnOperand token)

/-- Operands with arithmetic words between them. An operand is wanted next. -/
def operands (vars : Variables) : List String → Except Fault Unit
  | [] => .ok ()
  | [a] => numericOperand vars a
  | a :: operator :: rest => do
    numericOperand vars a
    if !Vocabulary.isArithmetic operator then .error (.notAnOperator operator)
    else if rest.isEmpty then .error (.operatorLast operator)
    else operands vars rest

/-- One arithmetic side of a comparison. -/
def arithmeticSide (vars : Variables) (side : Side) (tokens : List String) : Except Fault Unit :=
  if tokens.isEmpty then .error (.missingSide side) else operands vars tokens

/-- Two arithmetic sides and a relational phrase. -/
def checkNumeric (vars : Variables) (tokens : List String) : Except Fault Unit := do
  let r ← relation tokens
  arithmeticSide vars .left r.left
  arithmeticSide vars .right r.right

/-- A text variable compared with a text variable or a string literal. -/
def checkText (vars : Variables) (tokens : List String) : Except Fault Unit := do
  let r ← relation tokens
  if !Vocabulary.isEquality r.operator then .error (.textOperator r.operator)
  else match r.left with
    | [a] =>
      if Literal.isIdentifier a then do
        variableOf vars .text a
        match r.right with
        | [b] =>
          if Literal.isString b then .ok ()
          else if Literal.isIdentifier b then variableOf vars .text b
          else .error (.notAText b)
        | right => .error (.textSide .right (Text.spaced right))
      else .error (.textSide .left a)
    | left => .error (.textSide .left (Text.spaced left))

/-- A condition whose first operand has the given type. -/
def checkTokens (vars : Variables) (type : ValueType) (tokens : List String) :
    Except Fault Unit :=
  match type with
  | .boolean => checkBoolean vars tokens
  | .integer | .decimal => checkNumeric vars tokens
  | .text => checkText vars tokens
  | .invalid | .void => .error (.unsupportedType type)

/-- The type of a first operand. -/
def operandType (vars : Variables) (token : String) : Except Fault ValueType :=
  if Vocabulary.isBoolean token then .ok .boolean
  else if Literal.isNumber token then .ok (Literal.numberType token)
  else if Literal.isString token then .ok .text
  else if Literal.isIdentifier token && classify token = .identifier then
    match vars.lookup token with
    | none => .error (.undeclared token)
    | some type => .ok type
  else .error (.notAnOperand token)

/-- Whether a text is a condition, by the type of its first operand. -/
def check (vars : Variables) (cond : String) : Except Fault Unit :=
  match tokenize cond with
  | [] => .error .empty
  | first :: rest => do
    let type ← operandType vars first
    checkTokens vars type (first :: rest)

/-- Whether a text is a condition whose first operand counts as the given type. -/
def checkAs (vars : Variables) (cond : String) (type : ValueType) : Except Fault Unit :=
  match tokenize cond with
  | [] => .error .empty
  | tokens => checkTokens vars type tokens

end Courtesy.Condition
