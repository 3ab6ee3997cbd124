import Courtesy.Expression.Atoms
import Courtesy.Expression.Automaton
import Courtesy.Scope
import Courtesy.Token.Vocabulary

/-!
# Expressions

`check` decides whether a text is an expression of an expected type over given variables. Each atom
is first let through by its type (`gate`), then the acceptor reads the sequence, and at last two
types ask for more: a boolean is a single item, and texts are joined by `add` alone.
-/

namespace Courtesy

namespace Expression

/-- What an atom is to the acceptor; `none` for an atom that fits nowhere. -/
def role? (atom : String) : Option Role :=
  if Literal.isNumber atom then some .number
  else if Literal.isString atom then some .string
  else if Vocabulary.isBoolean atom then some .boolean
  else match atom with
    | "add" => some .plus
    | "sub" => some .minus
    | "mul" => some .times
    | "div" => some .over
    | "(" => some .opening
    | ")" => some .closing
    | _ => if Literal.isIdentifier atom then some .var else none

/-- Whether `sub` behind the atom `prev` is a sign and not an operator. -/
def isSignAfter : Option String → Bool
  | none => true
  | some prev => Vocabulary.isArithmetic prev || prev == "("

/-- Whether a numeric literal may stand in an expression, given how many operands went before. -/
def admitNumber (literal : String) (expected : ValueType) (operands : Nat) : Except Fault Unit :=
  match expected with
  | .integer => if Literal.isDecimal literal then .error (.decimalAsInteger literal) else .ok ()
  | .boolean => .error (.numberAsBoolean literal)
  | .text => if operands = 0 then .error (.numberFirst literal) else .ok ()
  | _ => .ok ()

/-- Whether a variable may stand in an expression, given how many operands went before. -/
def admitVariable (name : String) (type expected : ValueType) (operands : Nat) :
    Except Fault Unit :=
  if type.compatible expected then .ok ()
  else if expected = .text && type.isNumeric && operands > 0 then .ok ()
  else if expected = .boolean then .error (.variableAsBoolean name type)
  else .error (.variableMismatch name type expected)

/-- Whether a string literal may stand in an expression. -/
def admitString (literal : String) (expected : ValueType) : Except Fault Unit :=
  match expected with
  | .text => .ok ()
  | .boolean => .error (.stringAsBoolean literal)
  | _ => .error (.stringMismatch literal expected)

/-- Whether a truth value may stand in an expression. -/
def admitBoolean (literal : String) (expected : ValueType) : Except Fault Unit :=
  if expected = .boolean then .ok () else .error (.booleanMismatch literal expected)

/-- One atom let through: whether it is an operand, and whether it is a decimal variable where an
integer is expected. -/
structure Admission where
  isOperand : Bool
  narrows : Bool
  deriving DecidableEq, Repr

/-- Lets an atom of a role through, or says why it cannot stand here. -/
def pass (vars : Variables) (expected : ValueType) (operands : Nat) (role : Role)
    (atom : String) : Except Fault Admission :=
  match role with
  | .var =>
    match vars.lookup atom with
    | none => .error (.unknownVariable atom)
    | some type => do
      admitVariable atom type expected operands
      return ⟨true, type = .decimal && expected = .integer⟩
  | .number => do
    admitNumber atom expected operands
    return ⟨true, false⟩
  | .string => do
    admitString atom expected
    return ⟨true, false⟩
  | .boolean => do
    admitBoolean atom expected
    return ⟨true, false⟩
  | _ => .ok ⟨false, false⟩

/-- The items of the atoms behind `prev`, with `operands` operands in front, and whether a decimal
variable narrows among them. A `sub` that is a sign takes the number behind it into one item. -/
def gate (vars : Variables) (expected : ValueType) :
    Option String → Nat → List String → Except Fault (List Item × Bool)
  | _, _, [] => .ok ([], false)
  | prev, operands, atom :: rest =>
    if atom == "sub" && isSignAfter prev then
      match rest with
      | [] => .error (.misusedSign atom)
      | digits :: rest' =>
        if Literal.isNumber digits then do
          let literal := "-" ++ digits
          admitNumber literal expected operands
          let (items, narrows) ← gate vars expected (some digits) (operands + 1) rest'
          return (⟨.number, literal⟩ :: items, narrows)
        else .error (.misusedSign atom)
    else match role? atom with
      | none => .error (.strayToken atom)
      | some role => do
        let admission ← pass vars expected operands role atom
        let operands' := if admission.isOperand then operands + 1 else operands
        let (items, narrows) ← gate vars expected (some atom) operands' rest
        return (⟨role, atom⟩ :: items, admission.narrows || narrows)

/-- What the boolean and the text type ask of an accepted sequence. -/
def finish (expected : ValueType) (items : List Item) : Except Fault Unit :=
  match expected with
  | .boolean => if items.length = 1 then .ok () else .error .compoundBoolean
  | .text =>
    match items.find? fun i => i.role = .minus || i.role = .times || i.role = .over with
    | some i => .error (.notAJoin i.text)
    | none => .ok ()
  | _ => .ok ()

/-- The types that an expression can have. -/
def isValueType : ValueType → Bool
  | .integer | .decimal | .boolean | .text => true
  | .invalid | .void => false

end Expression

/-- A checked expression: its atoms, and whether a decimal variable feeds an integer. -/
structure Expression where
  atoms : List String
  narrowing : Bool
  deriving DecidableEq, Repr

namespace Expression

/-- The atoms joined by single spaces. -/
def text (e : Expression) : String := Text.spaced e.atoms

/-- The expression that a text is for an expected type, or why it is none. -/
def check (vars : Variables) (expr : String) (expected : ValueType) :
    Except Fault Expression :=
  if !isValueType expected then .error (.unknownType expected)
  else
    let atoms := cut expr
    if atoms.isEmpty then .error (.empty expected)
    else do
      let (items, narrowing) ← gate vars expected none 0 atoms
      accept items
      finish expected items
      return ⟨atoms, narrowing⟩

end Expression

end Courtesy
