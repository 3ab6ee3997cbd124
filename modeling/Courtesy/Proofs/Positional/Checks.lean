import Courtesy.Condition
import Courtesy.Expression
import Courtesy.Proofs.Positional.Scanner

/-!
# Expressions and conditions by position

The gate of an expression walks the atoms by number, looks back one atom to tell a sign from an
operator and looks ahead one atom behind a sign. A condition is cut at the position of its
relational phrase, and its sides are read by their first and last positions.

Every position exists: each walk is the walk over the list.
-/

namespace Courtesy.Positional

/-! ## Expressions -/

namespace Expression

open Courtesy.Expression

/-- Whether the atom at a position is a `sub` that is a sign and not an operator. -/
def isSign (atoms : List String) (i : Nat) : Option Bool := do
  if (← at? atoms i) != "sub" then return false
  else if i = 0 then return true
  else
    let prev ← at? atoms (i - 1)
    return Vocabulary.isArithmetic prev || prev == "("

/-- The items of the atoms from a position on, with `operands` operands in front, and whether a
decimal variable narrows among them. -/
def gate (vars : Variables) (expected : ValueType) (atoms : List String) (operands i : Nat) :
    Look Fault (List Item × Bool) :=
  if i < atoms.length then do
    let atom ← look (at? atoms i)
    if ← look (isSign atoms i) then
      if i + 1 ≥ atoms.length then throw (.misusedSign atom)
      else do
        let digits ← look (at? atoms (i + 1))
        if !Literal.isNumber digits then throw (.misusedSign atom)
        else do
          let literal := "-" ++ digits
          told (admitNumber literal expected operands)
          let (items, narrows) ← gate vars expected atoms (operands + 1) (i + 2)
          return (⟨.number, literal⟩ :: items, narrows)
    else match role? atom with
      | none => throw (.strayToken atom)
      | some role => do
        let admission ← told (pass vars expected operands role atom)
        let operands' := if admission.isOperand then operands + 1 else operands
        let (items, narrows) ← gate vars expected atoms operands' (i + 1)
        return (⟨role, atom⟩ :: items, admission.narrows || narrows)
  else return ([], false)
termination_by atoms.length - i

/-- The expression that a text is for an expected type, or why it is none. -/
def check (vars : Variables) (expr : String) (expected : ValueType) :
    Look Fault Courtesy.Expression :=
  if !isValueType expected then throw (.unknownType expected)
  else
    let atoms := cut expr
    if atoms.length = 0 then throw (.empty expected)
    else do
      let (items, narrowing) ← gate vars expected atoms 0 0
      told (accept items)
      told (finish expected items)
      return ⟨atoms, narrowing⟩

/-- The atom in front of a position. -/
def before? (atoms : List String) (i : Nat) : Option String := (atoms.take i).getLast?

theorem before?_succ {atoms : List String} {i : Nat} (h : i < atoms.length) :
    before? atoms (i + 1) = some atoms[i] := by
  rw [before?, List.take_succ_eq_append_getElem h, List.getLast?_concat]

theorem isSign_eq {atoms : List String} {i : Nat} (h : i < atoms.length) :
    isSign atoms i = some (atoms[i] == "sub" && isSignAfter (before? atoms i)) := by
  unfold isSign
  rw [at?_eq_getElem h]
  cases i with
  | zero => by_cases hsub : atoms[0] = "sub" <;> simp [hsub, before?, isSignAfter]
  | succ i =>
    have hprev : ((i + 1 : Nat) : Int) - 1 = (i : Nat) := by omega
    have hi : i < atoms.length := by omega
    rw [before?_succ hi, hprev, at?_eq_getElem hi]
    by_cases hsub : atoms[i + 1] = "sub" <;> simp [hsub, isSignAfter]

/-- The gate by position is the gate over the rest of the atoms. -/
theorem gate_eq (vars : Variables) (expected : ValueType) (atoms : List String) (operands i : Nat) :
    gate vars expected atoms operands i
      = told (Courtesy.Expression.gate vars expected (before? atoms i) operands
        (atoms.drop i)) := by
  -- a sign takes two atoms at once, so the induction is on the number of atoms that are left
  induction hleft : atoms.length - i using Nat.strongRecOn generalizing operands i with
  | ind left ih =>
    by_cases hi : i < atoms.length
    · rw [gate, if_pos hi, at?_eq_getElem hi, look_some, pure_bind, isSign_eq hi, look_some,
        pure_bind, List.drop_eq_getElem_cons hi, Courtesy.Expression.gate.eq_def]
      dsimp only
      by_cases hsign : (atoms[i] == "sub" && isSignAfter (before? atoms i)) = true
      · rw [if_pos hsign, if_pos hsign]
        by_cases hnext : i + 1 < atoms.length
        · rw [if_neg (by omega), at?_succ hnext, look_some, pure_bind,
            List.drop_eq_getElem_cons hnext]
          dsimp only
          by_cases hnumber : Literal.isNumber atoms[i + 1] = true
          · rw [if_neg (by simp [hnumber]), if_pos hnumber, told_bind]
            congr 1
            funext _
            rw [ih _ (by omega) _ (i + 2) rfl, told_bind, before?_succ hnext]
            rfl
          · rw [if_pos (by simp [hnumber]), if_neg hnumber]
            rfl
        · rw [if_pos (by omega), List.drop_eq_nil_of_le (by omega)]
          rfl
      · rw [if_neg hsign, if_neg hsign]
        cases role? atoms[i] with
        | none => rfl
        | some role =>
          dsimp only
          rw [told_bind]
          congr 1
          funext admission
          rw [ih _ (by omega) _ (i + 1) rfl, told_bind, before?_succ hi]
          rfl
    · rw [gate, if_neg hi, List.drop_eq_nil_of_le (by omega)]
      rfl

@[simp] theorem check_eq (vars : Variables) (expr : String) (expected : ValueType) :
    check vars expr expected = told (Courtesy.Expression.check vars expr expected) := by
  unfold check Courtesy.Expression.check
  rw [told_ite]
  split
  · rfl
  · dsimp only
    simp only [gate_eq, told_ite, told_bind, List.isEmpty_iff_length_eq_zero]
    split <;> rfl

end Expression

/-! ## Conditions -/

namespace Condition

open Courtesy.Condition

/-- Parts tokens at their one relational phrase. -/
def relation (tokens : List String) : Look Fault Relation := do
  let i := indexOf Vocabulary.isRelational tokens
  let count := tokens.countP Vocabulary.isRelational
  if i < 0 then throw .noRelation
  else if count > 1 then do
    let operator ← look (at? tokens i)
    throw (.manyRelations operator count)
  else do
    let left ← look (upTo? tokens i)
    let operator ← look (at? tokens i)
    let right ← look (from? tokens (i + 1))
    return ⟨left, operator, right⟩

/-- One boolean operand, or two that are compared for equality or difference. -/
def checkBoolean (vars : Variables) (tokens : List String) : Look Fault Unit :=
  if tokens.length = 1 then do
    let operand ← look (at? tokens 0)
    told (booleanOperand vars operand)
  else if tokens.length = 3 then do
    let first ← look (at? tokens 0)
    told (booleanOperand vars first)
    let operator ← look (at? tokens 1)
    if !Vocabulary.isEquality operator then throw (.booleanOperator operator)
    else do
      let second ← look (at? tokens 2)
      told (booleanOperand vars second)
  else throw .booleanShape

/-- Reads operands and arithmetic words in turn; the answer is whether an operand is wanted behind
the last token. -/
def alternate (vars : Variables) : (wanted : Bool) → List String → Except Fault Bool
  | wanted, [] => .ok wanted
  | true, token :: rest => do
    numericOperand vars token
    alternate vars false rest
  | false, token :: rest =>
    if !Vocabulary.isArithmetic token then .error (.notAnOperator token)
    else alternate vars true rest

/-- One arithmetic side of a comparison. -/
def arithmeticSide (vars : Variables) (side : Side) (tokens : List String) : Look Fault Unit :=
  if tokens.length = 0 then throw (.missingSide side)
  else do
    let wanted ← told (alternate vars true tokens)
    if wanted then do
      let last ← look (at? tokens (tokens.length - 1))
      throw (.operatorLast last)
    else return ()

/-- Two arithmetic sides and a relational phrase. -/
def checkNumeric (vars : Variables) (tokens : List String) : Look Fault Unit := do
  let r ← relation tokens
  arithmeticSide vars .left r.left
  arithmeticSide vars .right r.right

/-- The only token of a side of a text comparison. -/
def only (side : Side) (tokens : List String) : Look Fault String :=
  if tokens.length ≠ 1 then throw (.textSide side (Text.spaced tokens)) else look (at? tokens 0)

/-- A text variable compared with a text variable or a string literal. -/
def checkText (vars : Variables) (tokens : List String) : Look Fault Unit := do
  let r ← relation tokens
  if !Vocabulary.isEquality r.operator then throw (.textOperator r.operator)
  else do
    let left ← only .left r.left
    if !Literal.isIdentifier left then throw (.textSide .left (Text.spaced r.left))
    else do
      told (variableOf vars .text left)
      let right ← only .right r.right
      if Literal.isString right then return ()
      else if Literal.isIdentifier right then told (variableOf vars .text right)
      else throw (.notAText right)

/-- A condition whose first operand has the given type. -/
def checkTokens (vars : Variables) (type : ValueType) (tokens : List String) : Look Fault Unit :=
  match type with
  | .boolean => checkBoolean vars tokens
  | .integer | .decimal => checkNumeric vars tokens
  | .text => checkText vars tokens
  | .invalid | .void => throw (.unsupportedType type)

/-- Whether a text is a condition, by the type of its first operand. -/
def check (vars : Variables) (cond : String) : Look Fault Unit := do
  let tokens ← look (tokenize cond)
  if tokens.length = 0 then throw .empty
  else do
    let first ← look (at? tokens 0)
    let type ← told (operandType vars first)
    checkTokens vars type tokens

theorem relation_eq (tokens : List String) :
    relation tokens = told (Courtesy.Condition.relation tokens) := by
  unfold relation Courtesy.Condition.relation indexOf
  cases hfind : tokens.findIdx? Vocabulary.isRelational with
  | none => rfl
  | some i =>
    have hi : i < tokens.length := by
      obtain ⟨h, -⟩ := List.findIdx?_eq_some_iff_getElem.mp hfind
      exact h
    dsimp only
    rw [if_neg (by omega), at?_eq_getElem hi, upTo?_natCast (Nat.le_of_lt hi), from?_succ hi,
      List.getD_eq_getElem?_getD, List.getElem?_eq_getElem hi, told_ite]
    split <;> rfl

theorem checkBoolean_eq (vars : Variables) (tokens : List String) :
    checkBoolean vars tokens = told (Courtesy.Condition.checkBoolean vars tokens) := by
  match tokens with
  | [] => rfl
  | [a] => rfl
  | [a, b] => rfl
  | [a, operator, b] =>
    cases hop : Vocabulary.isEquality operator <;>
      simp [checkBoolean, Courtesy.Condition.checkBoolean, hop]
  | a :: b :: c :: d :: rest =>
    rw [checkBoolean, if_neg (by simp), if_neg (by simp)]
    rfl

/-- The last token of an arithmetic side is blamed iff an operand is wanted behind it. -/
theorem operands_eq (vars : Variables) {tokens : List String} (h : tokens ≠ []) :
    Courtesy.Condition.operands vars tokens
      = alternate vars true tokens >>= fun wanted =>
        if wanted then .error (.operatorLast (tokens.getLast h)) else .ok () := by
  fun_induction Courtesy.Condition.operands vars tokens with
  | case1 => exact absurd rfl h
  | case2 a =>
    rw [alternate]
    cases numericOperand vars a <;> rfl
  | case3 a operator rest ih =>
    rw [alternate]
    cases numericOperand vars a with
    | error fault => rfl
    | ok _ =>
      by_cases hop : Vocabulary.isArithmetic operator = true
      · cases rest with
        | nil =>
          simp only [alternate, hop, Bool.not_true, Bool.false_eq_true, if_false]
          rfl
        | cons b more =>
          rw [ih (by simp)]
          simp only [alternate, hop, Bool.not_true, Bool.false_eq_true, if_false]
          rfl
      · simp only [alternate, hop, Bool.not_false, if_true]
        rfl

theorem arithmeticSide_eq (vars : Variables) (side : Side) (tokens : List String) :
    arithmeticSide vars side tokens
      = told (Courtesy.Condition.arithmeticSide vars side tokens) := by
  unfold arithmeticSide Courtesy.Condition.arithmeticSide
  rcases List.eq_nil_or_concat tokens with rfl | ⟨init, last, rfl⟩
  · rfl
  · rw [List.concat_eq_append, at?_last, operands_eq vars (by simp)]
    simp

theorem checkNumeric_eq (vars : Variables) (tokens : List String) :
    checkNumeric vars tokens = told (Courtesy.Condition.checkNumeric vars tokens) := by
  simp [checkNumeric, Courtesy.Condition.checkNumeric, relation_eq, arithmeticSide_eq]

theorem checkText_eq (vars : Variables) (tokens : List String) :
    checkText vars tokens = told (Courtesy.Condition.checkText vars tokens) := by
  rw [checkText, relation_eq, Courtesy.Condition.checkText, told_bind]
  refine congrArg (told (Courtesy.Condition.relation tokens) >>= ·) (funext fun r => ?_)
  rw [told_ite]
  split
  · rfl
  · match r.left with
    | [] => rfl
    | _ :: _ :: _ => simp [only]
    | [a] =>
      have hone : Text.spaced [a] = a := by simp [Text.spaced]
      cases ha : Literal.isIdentifier a with
      | false => simp [only, ha, hone]
      | true =>
        match r.right with
        | [] => simp [only, ha]
        | _ :: _ :: _ => simp [only, ha]
        | [b] => simp [only, ha]

theorem checkTokens_eq (vars : Variables) (type : ValueType) (tokens : List String) :
    checkTokens vars type tokens = told (Courtesy.Condition.checkTokens vars type tokens) := by
  cases type with
  | boolean => exact checkBoolean_eq vars tokens
  | integer => exact checkNumeric_eq vars tokens
  | decimal => exact checkNumeric_eq vars tokens
  | text => exact checkText_eq vars tokens
  | invalid => rfl
  | void => rfl

@[simp] theorem check_eq (vars : Variables) (cond : String) :
    check vars cond = told (Courtesy.Condition.check vars cond) := by
  rw [check, tokenize_eq, look_some, pure_bind, Courtesy.Condition.check]
  cases Courtesy.tokenize cond with
  | nil => rfl
  | cons first rest => simp [checkTokens_eq]

end Condition

end Courtesy.Positional
