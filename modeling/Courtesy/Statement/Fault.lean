import Courtesy.Condition
import Courtesy.Diagnostic
import Courtesy.Expression

/-!
# Faults of statements

Why a line is no statement. A fault knows its category, the token it blames, which may be no token
at all, and its wording. The fault of a value keeps the fault of the expression or condition and
the place where the value stands.
-/

namespace Courtesy.Statement

/-- The statements that end in an opening brace, apart from function definitions. -/
inductive Header where
  | forLoop
  | whileLoop
  | ifStatement
  deriving DecidableEq, Repr

def Header.name : Header → String
  | forLoop => "for-loop"
  | whileLoop => "while-loop"
  | ifStatement => "if-statement"

/-- Where an expression stands in a statement. -/
inductive Place where
  | initialValue
  | assigned
  | argument (param function : String)
  | loopStart
  | loopEnd
  | returned
  deriving DecidableEq, Repr

/-- The words in front of the fault of an expression. -/
def Place.lead : Place → String
  | initialValue => "Invalid initialization expression: "
  | assigned => "Invalid expression: "
  | argument param function => s!"Invalid argument '{param}' for function '{function}': "
  | loopStart => "Invalid for-loop start: "
  | loopEnd => "Invalid for-loop end: "
  | returned => "Invalid return expression: "

inductive Fault where
  | declarationIncomplete
  | variableTypeMissing (token : String)
  | variableNameMissing (token : String)
  | variableVoid (token name : String)
  | variableExists (name : String)
  | variableIsFunction (name : String)
  | equalsExpected (token name : String)
  | initialValueMissing
  | assignmentIncomplete
  | assignedFunction (name : String)
  | variableMissing (name : String)
  | equalsMissing (token : String)
  | nothingPrinted
  | addExpected (token : String)
  | unprintable (token : String)
  | trailingAdd
  | loopIncomplete
  | loopUnclear (token : String)
  | forFormat
  | forBounds
  | counterTaken
  | whileFormat
  | braceMissing (header : Header)
  | afterBrace (token : String) (header : Header)
  | conditionMissing (header : Header)
  | definitionShort
  | resultTypeExpected (token : String)
  | functionNameExpected (token : String)
  | openParenExpected (token : String)
  | closeParenExpected (token : String)
  | openBraceExpected (token : String)
  | functionExists (name : String)
  | mainHasParams (name : String)
  | paramTrailingComma
  | paramIncomplete (token : String)
  | paramInvalid (token : String)
  | paramVoid (token name : String)
  | paramIsFunction (name : String)
  | paramIsVariable (name : String)
  | returnOutside (token : String)
  | resultUnknown (function : String)
  | voidReturns (token : String)
  | resultMissing (token function : String) (type : ValueType)
  | calleeMissing
  | calleeExpected (token : String)
  | functionMissing (name : String)
  | callUnopened (name : String)
  | callUnclosed
  | afterCall (token : String)
  | argumentEmpty (name : String)
  | argumentCount (name : String) (expected given : Nat)
  | voidReturned (function : String)
  | voidAssigned (function name : String)
  | resultMismatch (function : String) (result expected : ValueType)
  | resultUnassignable (function : String) (result : ValueType) (name : String)
      (type : ValueType)
  | expression (place : Place) (fault : Expression.Fault)
  | condition (header : Header) (fault : Condition.Fault)
  deriving DecidableEq, Repr

namespace Fault

def category : Fault → Category
  | variableVoid _ _ | paramVoid _ _ | resultMismatch _ _ _ | resultUnassignable _ _ _ _ => .type
  | variableExists _ | variableIsFunction _ | assignedFunction _ | variableMissing _
  | counterTaken | functionExists _ | paramIsFunction _ | paramIsVariable _
  | functionMissing _ => .scope
  | returnOutside _ | resultUnknown _ | voidReturns _ | resultMissing _ _ _ | argumentEmpty _
  | argumentCount _ _ _ | voidReturned _ | voidAssigned _ _ => .semantic
  | mainHasParams _ => .entryPoint
  | expression _ fault => .ofWording fault.message
  | condition _ fault => .ofWording fault.message
  | _ => .structural

/-- The token that is blamed, empty when there is none. -/
def blame : Fault → String
  | variableTypeMissing t | variableNameMissing t | variableVoid t _ | variableExists t
  | variableIsFunction t | equalsExpected t _ | assignedFunction t | variableMissing t
  | equalsMissing t | addExpected t | unprintable t | loopUnclear t | afterBrace t _
  | resultTypeExpected t | functionNameExpected t | openParenExpected t | closeParenExpected t
  | openBraceExpected t | functionExists t | mainHasParams t | paramIncomplete t | paramInvalid t
  | paramVoid t _ | paramIsFunction t | paramIsVariable t | returnOutside t | voidReturns t
  | resultMissing t _ _ | calleeExpected t | functionMissing t | callUnopened t | afterCall t
  | argumentCount t _ _ | voidReturned t | voidAssigned t _ | resultMismatch t _ _
  | resultUnassignable t _ _ _ => t
  | trailingAdd => "add"
  | counterTaken => "from"
  | paramTrailingComma | argumentEmpty _ => ","
  | callUnclosed => "("
  | expression _ fault => fault.blame
  | condition _ fault => fault.blame
  | declarationIncomplete | initialValueMissing | assignmentIncomplete | nothingPrinted
  | loopIncomplete | forFormat | forBounds | whileFormat | braceMissing _ | conditionMissing _
  | definitionShort | resultUnknown _ | calleeMissing => ""

/-- The wording of a fault. -/
def message : Fault → String
  | declarationIncomplete => "Incomplete variable declaration"
  | variableTypeMissing _ => "Missing variable type in declaration"
  | variableNameMissing _ => "Missing variable name in declaration"
  | variableVoid _ x => s!"Variable '{x}' cannot be declared as void"
  | variableExists x =>
    s!"Variable '{x}' cannot be created because it conflicts with an existing variable."
  | variableIsFunction x =>
    s!"Variable '{x}' cannot be created because it conflicts with an existing function."
  | equalsExpected _ x => s!"Expected 'equals' after variable name '{x}'"
  | initialValueMissing => "Missing value after 'equals' in variable declaration"
  | assignmentIncomplete =>
    "Invalid assignment. Expected format: [variable] equals [expression]"
  | assignedFunction x => s!"Cannot assign value to '{x}' because it is a function name."
  | variableMissing x => s!"Variable '{x}' does not exist"
  | equalsMissing _ => "Missing 'equals' keyword after variable name"
  | nothingPrinted => "Missing text to print"
  | addExpected t => s!"Expected 'add' between printed values, got '{t}'"
  | unprintable t => s!"Invalid print value. Expected string or variable name, got '{t}'."
  | trailingAdd => "Print statement cannot end with 'add'"
  | loopIncomplete => "Incomplete loop statement"
  | loopUnclear _ =>
    "Not clear which loop type to use. Use 'from' for for-loops or 'while' for while-loops."
  | forFormat =>
    "Invalid for-loop format. Expected 'thank you for looping from [start] to [end] \x7b'"
  | forBounds => "Missing start or end value in for-loop"
  | counterTaken => "Loop counter 'i' conflicts with an existing name."
  | whileFormat =>
    "Invalid while-loop format. Expected 'thank you for looping while [condition] \x7b'"
  | braceMissing header =>
    s!"Missing opening brace '\x7b' in {header.name}. Please add it at the end."
  | afterBrace t header => s!"Unexpected '{t}' after '\x7b' in {header.name}"
  | conditionMissing header => s!"Missing condition in {header.name}"
  | definitionShort =>
    "Function definition is too short. Must include return type, name, parameters, and braces."
  | resultTypeExpected t => s!"Expected a return type after 'please define function', got '{t}'"
  | functionNameExpected t => s!"Expected a function name, got '{t}'"
  | openParenExpected _ => "Expected '(' after the function name"
  | closeParenExpected _ => "Expected ')' to be the second to last token"
  | openBraceExpected _ => "Expected '\x7b' to be the last token of the function header"
  | functionExists f => s!"Function '{f}' is already defined."
  | mainHasParams _ =>
    "The main function cannot take parameters. Use 'please define function void main() \x7b'."
  | paramTrailingComma => "Trailing ',' in parameter list"
  | paramIncomplete _ => "Incomplete parameter pair in function definition"
  | paramInvalid t => s!"Invalid parameter near '{t}': expected [type name]"
  | paramVoid _ x => s!"Parameter '{x}' cannot be of type void"
  | paramIsFunction x => s!"Parameter name '{x}' conflicts with an existing function name."
  | paramIsVariable x => s!"Parameter name '{x}' conflicts with an existing variable."
  | returnOutside _ => "'thank you for returning' can only be used inside a function"
  | resultUnknown f => s!"Cannot determine the return type of function '{f}'"
  | voidReturns _ => "Functions of type void cannot return a value"
  | resultMissing _ f type => s!"Function '{f}' must return a value of type '{type.name}'"
  | calleeMissing => "Missing function name after 'please call'"
  | calleeExpected t => s!"Expected a function name after 'please call', got '{t}'"
  | functionMissing f => s!"Function '{f}' does not exist or was not declared."
  | callUnopened f => s!"Missing opening parenthesis after function name '{f}'"
  | callUnclosed => "Missing closing parenthesis in function call"
  | afterCall t => s!"Unexpected '{t}' after function call"
  | argumentEmpty f => s!"Empty argument in call to '{f}'"
  | argumentCount f expected given =>
    s!"Function '{f}' expects {expected} argument(s) but got {given}"
  | voidReturned f => s!"Cannot return the result of void function '{f}'"
  | voidAssigned f x => s!"Cannot assign result of void function '{f}' to variable '{x}'"
  | resultMismatch f result expected =>
    s!"Type mismatch: Function '{f}' returns '{result.name}' but '{expected.name}' is expected"
  | resultUnassignable f result x type =>
    s!"Type mismatch: Function '{f}' returns '{result.name}' but variable '{x}' is of type '{type.name}'"
  | expression place fault => place.lead ++ fault.message
  | condition header fault =>
    s!"Invalid condition syntax in {header.name}: {fault.message}"

end Fault

end Courtesy.Statement
