import Courtesy.Statement.Block

/-!
# Functions

A function header enters the function into the table even when its parameters are at fault: the
parameters in front of the fault are kept, and the function is marked as malformed. A return is
checked against the function that has been entered last.
-/

namespace Courtesy.Statement

/-- What a translation carries from line to line. -/
structure State where
  /-- The lines of the program. -/
  lines : List String := []
  /-- The number of lines that have been read. -/
  line : Nat := 0
  /-- The depth of the blocks that are open. -/
  indent : Nat := 0
  /-- The line numbers at which the open blocks start, the innermost first. -/
  blocks : List Nat := []
  /-- The function whose header was read last, until no block is open. -/
  function : Option String := none
  /-- The functions that need no further return: those that are void and those with a return
  outside of all control blocks. -/
  settled : List String := []
  /-- The functions whose parameters were at fault. -/
  malformed : List String := []
  /-- Whether a return counts as standing inside a control block. -/
  insideControl : Bool := false
  scope : Scope := {}
  deriving DecidableEq, Repr, Inhabited

/-- Parameters that could be read, the scope with them, and the fault that ended the list. -/
structure ParamList where
  scope : Scope
  params : List Param
  fault? : Option Fault
  deriving DecidableEq, Repr

/-- A pair of tokens as a parameter. -/
def param (scope : Scope) (typeToken nameToken : Token) : Except Fault Param :=
  if typeToken.kind ≠ .typeName ∨ nameToken.kind ≠ .identifier then
    .error (.paramInvalid typeToken.text)
  else
    let type := (ValueType.ofName? typeToken.text).getD .invalid
    let name := nameToken.text
    if type = .void then .error (.paramVoid typeToken.text name)
    else if scope.isFunction name then .error (.paramIsFunction name)
    else if scope.isDeclared name then .error (.paramIsVariable name)
    else .ok ⟨name, type⟩

/-- Parameters with optional commas between them; `first` says that none has been read yet. -/
def params : (scope : Scope) → (first : Bool) → List Token → ParamList
  | scope, _, [] => ⟨scope, [], none⟩
  | scope, first, [t] =>
    if !first && t.kind = .comma then ⟨scope, [], some .paramTrailingComma⟩
    else ⟨scope, [], some (.paramIncomplete t.text)⟩
  | scope, first, a :: b :: rest =>
    if !first && a.kind = .comma then
      match rest with
      | [] => ⟨scope, [], some (.paramIncomplete b.text)⟩
      | c :: rest' =>
        match param scope b c with
        | .error fault => ⟨scope, [], some fault⟩
        | .ok p =>
          let more := params (scope.declare p.name p.type) false rest'
          { more with params := p :: more.params }
    else
      match param scope a b with
      | .error fault => ⟨scope, [], some fault⟩
      | .ok p =>
        let more := params (scope.declare p.name p.type) false rest
        { more with params := p :: more.params }

/-- The parts of a function header whose shape is right. -/
structure FunctionHeader where
  name : String
  result : ValueType
  paramTokens : List Token
  deriving DecidableEq, Repr

/-- The shape of a header: `please define function TYPE NAME ( ... ) {`. -/
def functionHeader : List Token → Except Fault FunctionHeader
  | _ :: typeToken :: nameToken :: paren :: rest =>
    match rest.reverse with
    | brace :: close :: inner =>
      if typeToken.kind ≠ .typeName then .error (.resultTypeExpected typeToken.text)
      else if nameToken.kind ≠ .identifier then .error (.functionNameExpected nameToken.text)
      else if paren.kind ≠ .openParen then .error (.openParenExpected paren.text)
      else if close.kind ≠ .closeParen then .error (.closeParenExpected close.text)
      else if brace.kind ≠ .openBrace then .error (.openBraceExpected brace.text)
      else .ok ⟨nameToken.text, (ValueType.ofName? typeToken.text).getD .invalid, inner.reverse⟩
    | _ => .error .definitionShort
  | _ => .error .definitionShort

/-- A set of names with `name` in it or out of it. -/
def setMember (name : String) (isIn : Bool) (names : List String) : List String :=
  if isIn then name :: names.filter (· != name) else names.filter (· != name)

/-- The line that declares a method. -/
def methodHead (f : Signature) : String :=
  let decl := f.params.map fun p => p.type.target ++ " " ++ p.name
  s!"public static {f.result.target} {Target.methodName f.name}(" ++ ", ".intercalate decl ++ ")"

/-- `please define function TYPE NAME(TYPE NAME, ...) {` -/
def definition (st : State) (tokens : List Token) : State × Except Fault Opening :=
  match functionHeader tokens with
  | .error fault => (st, .error fault)
  | .ok h =>
    let st := { st with
      function := some h.name
      settled := setMember h.name (h.result = .void) st.settled }
    if st.scope.isFunction h.name then (st, .error (.functionExists h.name))
    else
      let list := params st.scope.enterFunction true h.paramTokens
      let f : Signature := ⟨h.name, h.result, list.params⟩
      let st := { st with scope := list.scope.declareFunction f }
      match list.fault? with
      | some fault => ({ st with malformed := h.name :: st.malformed }, .error fault)
      | none =>
        if h.name = "main" ∧ list.params ≠ [] then (st, .error (.mainHasParams h.name))
        else (st, .ok { code := headed (methodHead f) })

/-- `thank you for returning [VALUE]` -/
def returnStatement (st : State) (tokens : List Token) : Except Fault (State × String) :=
  let lead := (tokens.head?.map (·.text)).getD ""
  match st.function with
  | none => .error (.returnOutside lead)
  | some name =>
    match st.scope.function? name with
    | none => .error (.resultUnknown name)
    | some f =>
      match f.result, tokens.drop 1 with
      | .void, [] => .ok (st, "return;")
      | .void, t :: _ => .error (.voidReturns t.text)
      | type, [] => .error (.resultMissing lead f.name type)
      | type, first :: rest => do
        let code ← valueOrCall st.scope .returned .caller type first rest
        let settled := if st.insideControl then st.settled else setMember name true st.settled
        return ({ st with settled := settled }, "return " ++ code ++ ";")

end Courtesy.Statement
