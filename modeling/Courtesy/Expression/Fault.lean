import Courtesy.Token.Literal

/-!
# Faults of expressions

Why a text is no expression of the expected type. A fault knows the token it blames, which may be
no token at all, and its wording.
-/

namespace Courtesy.Expression

inductive Fault where
  | unknownType (expected : ValueType)
  | empty (expected : ValueType)
  | misusedSign (token : String)
  | strayToken (token : String)
  | unknownVariable (name : String)
  | decimalAsInteger (literal : String)
  | numberAsBoolean (literal : String)
  | numberFirst (literal : String)
  | variableAsBoolean (name : String) (type : ValueType)
  | variableMismatch (name : String) (type expected : ValueType)
  | stringAsBoolean (literal : String)
  | stringMismatch (literal : String) (expected : ValueType)
  | booleanMismatch (literal : String) (expected : ValueType)
  | misplaced (token : String)
  | unopened (token : String)
  | unclosed
  | unfinished
  | compoundBoolean
  | notAJoin (token : String)
  deriving DecidableEq, Repr

namespace Fault

/-- The token that is blamed, empty when there is none. -/
def blame : Fault → String
  | unknownType _ | empty _ | unfinished | compoundBoolean => ""
  | misusedSign t | strayToken t | unknownVariable t | decimalAsInteger t | numberAsBoolean t
  | numberFirst t | variableAsBoolean t _ | variableMismatch t _ _ | stringAsBoolean t
  | stringMismatch t _ | booleanMismatch t _ | misplaced t | unopened t | notAJoin t => t
  | unclosed => "("

/-- The wording of a fault. -/
def message : Fault → String
  | unknownType expected => s!"Unknown type: {expected.name}"
  | empty expected => s!"Empty {expected.name} expression"
  | misusedSign t => s!"Invalid unary usage near: {t}"
  | strayToken t => s!"Invalid token: {t}"
  | unknownVariable x => s!"Variable '{x}' not found in current scope"
  | decimalAsInteger n =>
    s!"Type mismatch: decimal literal {n} cannot be used in an 'integer' expression"
  | numberAsBoolean n =>
    s!"Type mismatch: cannot use {(Literal.numberType n).name} value '{n}' as boolean"
  | numberFirst n => s!"Type mismatch: numeric literal {n} cannot start a 'text' expression"
  | variableAsBoolean x type =>
    s!"Type mismatch: cannot use {type.name} variable '{x}' as boolean"
  | variableMismatch x type expected =>
    s!"Type mismatch: variable '{x}' is of type '{type.name}' but expression expects '{expected.name}'"
  | stringAsBoolean t => s!"Type mismatch: cannot use text value {t} as boolean"
  | stringMismatch _ expected =>
    s!"Type mismatch: string literal cannot be used in a '{expected.name}' expression"
  | booleanMismatch _ expected =>
    s!"Type mismatch: boolean literal cannot be used in a '{expected.name}' expression"
  | misplaced t => s!"Invalid token sequence near: '{t}'"
  | unopened _ => "Unmatched closing parenthesis"
  | unclosed => "Unmatched opening parenthesis"
  | unfinished => "Expression does not end properly"
  | compoundBoolean =>
    "Boolean type must be either 'true' or 'false', or a boolean variable. Cannot accept expressions."
  | notAJoin t => s!"Only 'add' can join text values, got '{t}'"

end Fault

end Courtesy.Expression
