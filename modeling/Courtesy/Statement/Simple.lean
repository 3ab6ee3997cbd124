import Courtesy.Statement.Value

/-!
# Statements without a block

Declarations, assignments, print statements and calls. Each yields its line of code; a declaration
also changes the scope.
-/

namespace Courtesy.Statement

/-- The initial value of a declaration, from the tokens behind the variable's name; none when there
are no tokens. -/
def initialValue (scope : Scope) (name : String) (type : ValueType) :
    List Token → Except Fault (Option String)
  | [] => .ok none
  | eq :: rest =>
    if eq.kind ≠ .equals then .error (.equalsExpected eq.text name)
    else match rest with
      | [] => .error .initialValueMissing
      | first :: more => do
        let code ← valueOrCall scope .initialValue (.place name) type first more
        return some code

/-- `please create TYPE NAME [equals VALUE]` -/
def declaration (scope : Scope) : List Token → Except Fault (Scope × String)
  | _ :: typeToken :: nameToken :: rest =>
    if typeToken.kind ≠ .typeName then .error (.variableTypeMissing typeToken.text)
    else if nameToken.kind ≠ .identifier then .error (.variableNameMissing nameToken.text)
    else
      let type := (ValueType.ofName? typeToken.text).getD .invalid
      let name := nameToken.text
      if type = .void then .error (.variableVoid typeToken.text name)
      else if scope.isDeclared name then .error (.variableExists name)
      else if scope.isFunction name then .error (.variableIsFunction name)
      else do
        let initial ← initialValue scope name type rest
        let code := type.target ++ " " ++ name ++ match initial with
          | none => ";"
          | some init => " = " ++ init ++ ";"
        return (scope.declare name type, code)
  | _ => .error .declarationIncomplete

/-- `NAME equals VALUE` -/
def assignment (scope : Scope) : List Token → Except Fault String
  | nameToken :: eq :: first :: rest =>
    let name := nameToken.text
    if scope.isFunction name then .error (.assignedFunction name)
    else match scope.lookup? name with
      | none => .error (.variableMissing name)
      | some type =>
        if eq.kind ≠ .equals then .error (.equalsMissing eq.text)
        else do
          let code ← valueOrCall scope .assigned (.place name) type first rest
          return name ++ " = " ++ code ++ ";"
  | _ => .error .assignmentIncomplete

/-- Whether a token can be printed: a literal, or a variable that is no arithmetic word. -/
def printable (scope : Scope) (t : Token) : Except Fault Unit :=
  match t.kind with
  | .string | .number | .boolean => .ok ()
  | .identifier =>
    if Vocabulary.isArithmetic t.text then .error (.unprintable t.text)
    else if scope.isDeclared t.text then .ok ()
    else .error (.variableMissing t.text)
  | _ => .error (.unprintable t.text)

/-- Printed values with `add` between them; a value is wanted next. -/
def printedValues (scope : Scope) : List Token → Except Fault (List String)
  | [] => .error .trailingAdd
  | [t] => do
    printable scope t
    return [t.text]
  | t :: sep :: rest => do
    printable scope t
    if sep.text ≠ "add" then .error (.addExpected sep.text)
    else do
      let values ← printedValues scope rest
      return t.text :: "+" :: values

/-- `thank you for printing VALUE [add VALUE]...` -/
def printStatement (scope : Scope) : List Token → Except Fault String
  | _ :: t :: ts => do
    let values ← printedValues scope (t :: ts)
    return "Console.WriteLine(" ++ Text.spaced values ++ ");"
  | _ => .error .nothingPrinted

/-- `please call FUNCTION(ARGUMENT, ...)` -/
def callStatement (scope : Scope) (tokens : List Token) : Except Fault String := do
  let c ← call scope (tokens.drop 1)
  return c.code ++ ";"

end Courtesy.Statement
