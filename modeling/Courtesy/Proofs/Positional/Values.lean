import Courtesy.Proofs.Positional.Checks
import Courtesy.Proofs.Statements

/-!
# Values in statements by position

A call is read by numbers: its name at the first position, its parenthesis at the second, then on to
the parenthesis that closes it, and each argument beside the parameter of the same number. Every
position exists, since a parenthesis that has been found is one of the tokens and does not close
before the third position, and the arguments are as many as the parameters.
-/

namespace Courtesy.Positional.Statement

open Courtesy.Statement

/-- The code of an expression of an expected type. -/
def value (scope : Scope) (place : Statement.Place) (expr : String) (expected : ValueType) :
    Look Fault String := do
  let vars ← look (visible scope)
  let e ← within (.expression place) (Expression.check vars expr expected)
  let code ← look (lower e.text)
  return if e.narrowing then narrowed code else code

/-- The code of the condition of a block. -/
def condition (scope : Scope) (header : Header) (tokens : List Token) : Look Fault String :=
  if tokens.length = 0 then throw (.conditionMissing header)
  else do
    let cond := Token.join tokens
    let vars ← look (visible scope)
    within (.condition header) (Condition.check vars cond)
    look (lower cond)

/-- The position of the parenthesis that closes the first one from the position `i` on, with
`depth` of them open in front; `-1` if there is none. -/
def closingFrom (tokens : List Token) (depth : Int) (i : Nat) : Option Int :=
  if i < tokens.length then do
    let token ← at? tokens i
    if token.kind = .openParen then closingFrom tokens (depth + 1) (i + 1)
    else if token.kind = .closeParen then
      if depth - 1 = 0 then some i else closingFrom tokens (depth - 1) (i + 1)
    else closingFrom tokens depth (i + 1)
  else some (-1)
termination_by tokens.length - i

/-- The tokens between the parentheses of a call, which starts with its name. -/
def callBody (name : String) (tokens : List Token) : Look Fault (List Token) :=
  if tokens.length < 2 then throw (.callUnopened name)
  else do
    let paren ← look (at? tokens 1)
    if paren.kind ≠ .openParen then throw (.callUnopened name)
    else do
      let closing ← look (closingFrom tokens 0 1)
      if closing < 0 then throw .callUnclosed
      else if closing ≠ tokens.length - 1 then do
        let extra ← look (at? tokens (closing + 1))
        throw (.afterCall extra.text)
      else look (slice? tokens 2 closing)

/-- The code of the arguments, the first of which has the parameter with the number `i`. -/
def argumentCodes (scope : Scope) (f : Signature) :
    List (List Token) → Nat → Look Fault (List String)
  | [], _ => return []
  | arg :: rest, i => do
    let p ← look (at? f.params i)
    let code ← value scope (.argument p.name f.name) (Token.join arg) p.type
    let codes ← argumentCodes scope f rest (i + 1)
    return code :: codes

/-- The call whose tokens start at the function's name. -/
def call (scope : Scope) (tokens : List Token) : Look Fault Call :=
  if tokens.length = 0 then throw .calleeMissing
  else do
    let nameToken ← look (at? tokens 0)
    let name := nameToken.text
    if nameToken.kind ≠ .identifier then throw (.calleeExpected name)
    else match scope.function? name with
      | none => throw (.functionMissing name)
      | some f => do
        let body ← callBody name tokens
        match arguments? body with
        | none => throw (.argumentEmpty name)
        | some args =>
          if args.length ≠ f.params.length then
            throw (.argumentCount name f.params.length args.length)
          else do
            let codes ← argumentCodes scope f args 0
            return ⟨f, Target.methodName name ++ "(" ++ ", ".intercalate codes ++ ")"⟩

/-- The code of a call whose result is used as a value of type `expected`. -/
def callValue (scope : Scope) (receiver : Receiver) (expected : ValueType) (tokens : List Token) :
    Look Fault String := do
  let c ← call scope tokens
  let f := c.callee
  if f.result = .void then
    match receiver with
    | .caller => throw (.voidReturned f.name)
    | .place x => throw (.voidAssigned f.name x)
  else if !f.result.compatible expected then
    match receiver with
    | .caller => throw (.resultMismatch f.name f.result expected)
    | .place x => throw (.resultUnassignable f.name f.result x expected)
  else if f.result = .decimal && expected = .integer then return "(int)" ++ c.code
  else return c.code

/-- The code of a value that starts at the position `i`, either a call or an expression. -/
def valueAt (scope : Scope) (place : Statement.Place) (receiver : Receiver)
    (expected : ValueType) (tokens : List Token) (i : Int) : Look Fault String := do
  let first ← look (at? tokens i)
  if first.kind = .call then do
    let rest ← look (from? tokens (i + 1))
    callValue scope receiver expected rest
  else do
    let rest ← look (from? tokens i)
    value scope place (Token.join rest) expected

/-! ## No look fails -/

@[simp] theorem value_eq (scope : Scope) (place : Statement.Place) (expr : String)
    (expected : ValueType) :
    value scope place expr expected
      = told (Courtesy.Statement.value scope place expr expected) := by
  unfold value Courtesy.Statement.value
  rw [visible_eq, look_some, pure_bind, Expression.check_eq]
  cases Courtesy.Expression.check scope.visible expr expected with
  | error fault => rfl
  | ok e => simp

@[simp] theorem condition_eq (scope : Scope) (header : Header) (tokens : List Token) :
    condition scope header tokens = told (Courtesy.Statement.condition scope header tokens) := by
  unfold condition Courtesy.Statement.condition
  simp only [List.isEmpty_iff_length_eq_zero, told_ite]
  split
  · rfl
  · rw [visible_eq, look_some, pure_bind, Condition.check_eq]
    cases Courtesy.Condition.check scope.visible (Token.join tokens) with
    | error fault => rfl
    | ok e => simp

theorem closing?_cons (depth : Nat) (t : Token) (ts : List Token) :
    closing? depth (t :: ts)
      = if t.kind = .openParen then (closing? (depth + 1) ts).map (· + 1)
        else if t.kind = .closeParen then
          if depth = 1 then some 0 else (closing? (depth - 1) ts).map (· + 1)
        else (closing? depth ts).map (· + 1) := by
  rw [closing?]
  split
  · next h => rw [if_pos h]
  · next h =>
    have hopen : t.kind ≠ .openParen := by simp [h]
    rw [if_neg hopen, if_pos h]
  · next hopen hclose => rw [if_neg hopen, if_neg hclose]

/-- A place behind the position `i` as a position, `-1` for none. -/
def position (i : Nat) : Option Nat → Int
  | some c => i + c
  | none => -1

theorem position_map_succ (i : Nat) (c? : Option Nat) :
    position i (c?.map (· + 1)) = position (i + 1) c? := by
  cases c? with
  | none => rfl
  | some c =>
    simp only [Option.map_some, position]
    omega

theorem closingFrom_eq (tokens : List Token) {depth : Nat} (hdepth : 0 < depth) (i : Nat) :
    closingFrom tokens depth i = some (position i (closing? depth (tokens.drop i))) := by
  induction hleft : tokens.length - i generalizing depth i with
  | zero =>
    rw [closingFrom, if_neg (by omega), List.drop_eq_nil_of_le (by omega)]
    rfl
  | succ left ih =>
    have hi : i < tokens.length := by omega
    have hup : (depth : Int) + 1 = (depth + 1 : Nat) := rfl
    have hdown : (depth : Int) - 1 = (depth - 1 : Nat) := by omega
    rw [closingFrom, if_pos hi, at?_eq_getElem hi, List.drop_eq_getElem_cons hi, closing?_cons,
      Option.bind_eq_bind, Option.bind_some, hup, hdown]
    split
    · rw [ih (by omega) (i + 1) (by omega), position_map_succ]
    · split
      · by_cases hone : depth = 1
        · rw [if_pos (by omega), if_pos hone]
          simp [position]
        · rw [if_neg (by omega), if_neg hone, ih (by omega) (i + 1) (by omega), position_map_succ]
      · rw [ih hdepth (i + 1) (by omega), position_map_succ]

/-- Behind a name, the first parenthesis is open from the third position on. -/
theorem closingFrom_name (nameToken : Token) {paren : Token} (inner : List Token)
    (hopen : paren.kind = .openParen) :
    closingFrom (nameToken :: paren :: inner) 0 1 = some (position 2 (closing? 1 inner)) := by
  have hrest := closingFrom_eq (nameToken :: paren :: inner) Nat.one_pos 2
  rw [closingFrom, if_pos (by simp), at?_natCast]
  simpa [hopen] using hrest

theorem callBody_eq (name : String) (nameToken : Token) (rest : List Token) :
    callBody name (nameToken :: rest) = told (Courtesy.Statement.callBody name rest) := by
  cases rest with
  | nil => rfl
  | cons paren inner =>
    rw [callBody, if_neg (by simp), Courtesy.Statement.callBody]
    simp only [at?_ofNat, List.getElem?_cons_succ, List.getElem?_cons_zero, look_some, pure_bind,
      told_ite]
    split
    · rfl
    · next hparen =>
      have hopen : paren.kind = .openParen := Decidable.not_not.mp hparen
      rw [closingFrom_name nameToken inner hopen, look_some, pure_bind, closing?_cons, if_pos hopen]
      cases hc : closing? 1 inner with
      | none => rfl
      | some c =>
        obtain ⟨close, hclose, -⟩ := closing?_some hc
        have hlt : c < inner.length := (List.getElem?_eq_some_iff.mp hclose).1
        have hposition : position 2 (some c) = (c + 2 : Nat) := by
          simp only [position]
          omega
        rw [hposition, if_neg (by omega), Option.map_some]
        dsimp only
        rw [List.drop_succ_cons]
        by_cases hlast : c + 1 = inner.length
        · have hend : ¬ ((c + 2 : Nat) : Int) ≠ (nameToken :: paren :: inner).length - 1 := by
            simp only [List.length_cons]
            omega
          have hslice := slice?_natCast (l := nameToken :: paren :: inner) (a := 2) (b := c + 2)
            (by omega) (by simp only [List.length_cons]; omega)
          rw [if_neg hend, List.drop_eq_nil_of_le (by omega)]
          exact congrArg look hslice
        · have hend : ((c + 2 : Nat) : Int) ≠ (nameToken :: paren :: inner).length - 1 := by
            simp only [List.length_cons]
            omega
          have hin : c + 1 < inner.length := by omega
          have hextra : at? (nameToken :: paren :: inner) ((c + 2 : Nat) + 1) = some inner[c + 1] :=
            at?_succ (by simp only [List.length_cons]; omega)
          rw [if_pos hend, List.drop_eq_getElem_cons hin, hextra]
          rfl

theorem argumentCodes_eq (scope : Scope) (f : Signature) (args : List (List Token)) {i : Nat}
    (h : i + args.length ≤ f.params.length) :
    argumentCodes scope f args i = told ((args.zip (f.params.drop i)).mapM fun (arg, p) =>
      Courtesy.Statement.value scope (.argument p.name f.name) (Token.join arg) p.type) := by
  induction args generalizing i with
  | nil => rfl
  | cons arg rest ih =>
    have hi : i < f.params.length := by
      rw [List.length_cons] at h
      omega
    rw [argumentCodes, at?_eq_getElem hi, ih (by rw [List.length_cons] at h; omega)]
    rw [List.drop_eq_getElem_cons hi, List.zip_cons_cons, List.mapM_cons]
    simp only [look_some, pure_bind, value_eq, told_bind]
    rfl

@[simp] theorem call_eq (scope : Scope) (tokens : List Token) :
    call scope tokens = told (Courtesy.Statement.call scope tokens) := by
  cases tokens with
  | nil => rfl
  | cons nameToken rest =>
    simp only [call, Courtesy.Statement.call, List.length_cons, Nat.succ_ne_zero, if_false,
      at?_ofNat, List.getElem?_cons_zero, look_some, pure_bind, told_ite]
    split
    · rfl
    · cases scope.function? nameToken.text with
      | none => rfl
      | some f =>
        dsimp only
        rw [callBody_eq, told_bind]
        refine congrArg (told _ >>= ·) (funext fun body => ?_)
        cases arguments? body with
        | none => rfl
        | some args =>
          dsimp only
          rw [told_ite]
          split
          · rfl
          · next hcount =>
            rw [argumentCodes_eq scope f args (by omega), told_bind]
            rfl

@[simp] theorem callValue_eq (scope : Scope) (receiver : Receiver) (expected : ValueType)
    (tokens : List Token) :
    callValue scope receiver expected tokens
      = told (Courtesy.Statement.callValue scope receiver expected tokens) := by
  rw [callValue, call_eq, Courtesy.Statement.callValue, told_bind]
  refine congrArg (told _ >>= ·) (funext fun c => ?_)
  cases receiver <;> simp

theorem valueAt_eq (scope : Scope) (place : Statement.Place) (receiver : Receiver)
    (expected : ValueType) {tokens rest : List Token} {first : Token} {i : Nat}
    (h : tokens.drop i = first :: rest) :
    valueAt scope place receiver expected tokens i
      = told (valueOrCall scope place receiver expected first rest) := by
  have hi : i < tokens.length := by
    apply Nat.lt_of_not_le
    intro hle
    rw [List.drop_eq_nil_of_le hle] at h
    cases h
  have hfirst : tokens[i]? = some first := by
    rw [← List.head?_drop, h, List.head?_cons]
  have hrest : tokens.drop (i + 1) = rest := by
    rw [← List.drop_drop, h, List.drop_succ_cons, List.drop_zero]
  rw [valueAt, at?_natCast, hfirst, from?_succ hi, hrest, from?_natCast (Nat.le_of_lt hi), h,
    valueOrCall]
  simp

end Courtesy.Positional.Statement
