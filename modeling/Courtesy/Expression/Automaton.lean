import Courtesy.Expression.Fault

/-!
# The acceptor of expressions

An expression is accepted as a sequence of items. The acceptor has one mode for each kind of item
that may stand last, and counts the parentheses that are open.
-/

namespace Courtesy.Expression

/-- What an item is to the acceptor. -/
inductive Role where
  | number
  | plus
  | minus
  | times
  | over
  | opening
  | closing
  | var
  | string
  | boolean
  deriving DecidableEq, Repr

structure Item where
  role : Role
  text : String
  deriving DecidableEq, Repr

/-- What has been read last. -/
inductive Mode where
  | start
  | operator
  | number
  | opened
  | closed
  | string
  | var
  deriving DecidableEq, Repr

namespace Mode

/-- Behind a number, a variable or a closed parenthesis any operator may follow. -/
def afterOperand : Role → Option Mode
  | .plus | .minus | .times | .over => some operator
  | .closing => some closed
  | _ => none

/-- The mode after one more item, where there is one. -/
def next : Mode → Role → Option Mode
  | start, role => match role with
    | .number | .boolean => some number
    | .plus | .minus => some operator
    | .opening => some opened
    | .string => some string
    | .var => some var
    | _ => none
  | operator, role => match role with
    | .number => some number
    | .opening => some opened
    | .string => some string
    | .var => some var
    | _ => none
  | opened, role => match role with
    | .number => some number
    | .plus | .minus => some operator
    | .opening => some opened
    | .string => some string
    | .var => some var
    | _ => none
  | string, role => match role with
    | .plus => some operator
    | .closing => some closed
    | _ => none
  | number, role | var, role | closed, role => afterOperand role

/-- Whether an expression may end here. -/
def isFinal : Mode → Bool
  | number | closed | string | var => true
  | start | operator | opened => false

end Mode

/-- Reads items from a mode with `depth` parentheses open. -/
def acceptFrom : Mode → Nat → List Item → Except Fault Unit
  | mode, depth, [] =>
    if depth > 0 then .error .unclosed
    else if mode.isFinal then .ok ()
    else .error .unfinished
  | mode, depth, item :: items =>
    match mode.next item.role with
    | none => .error (.misplaced item.text)
    | some mode' =>
      match item.role with
      | .opening => acceptFrom mode' (depth + 1) items
      | .closing =>
        if depth = 0 then .error (.unopened item.text) else acceptFrom mode' (depth - 1) items
      | _ => acceptFrom mode' depth items

/-- Whether the items form an expression. -/
def accept (items : List Item) : Except Fault Unit := acceptFrom .start 0 items

end Courtesy.Expression
