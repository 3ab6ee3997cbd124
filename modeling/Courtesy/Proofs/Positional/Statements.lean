import Courtesy.Proofs.Positional.Values
import Courtesy.Statement.Function
import Courtesy.Statement.Simple

/-!
# Statements by position

Each statement reads its tokens by number: words, types and names at fixed positions from either
end of the line, values from a position on, the bounds of a counting loop between the positions of
its words, parameters in steps of two. A statement has at least one token, as it is told apart by
its first. Beyond that each asks for a length before it asks for a position, and every position
exists.
-/

namespace Courtesy.Positional.Statement

open Courtesy.Statement

/-! ## Statements without a block -/

/-- The initial value of a declaration; none when the tokens end with the variable's name. -/
def initialValue (scope : Scope) (name : String) (type : ValueType) (tokens : List Token) :
    Look Fault (Option String) :=
  if tokens.length > 3 then do
    let eq ← look (at? tokens 3)
    if eq.kind ≠ .equals then throw (.equalsExpected eq.text name)
    else if tokens.length < 5 then throw .initialValueMissing
    else do
      let code ← valueAt scope .initialValue (.place name) type tokens 4
      return some code
  else return none

def declaration (scope : Scope) (tokens : List Token) : Look Fault (Scope × String) :=
  if tokens.length < 3 then throw .declarationIncomplete
  else do
    let typeToken ← look (at? tokens 1)
    let nameToken ← look (at? tokens 2)
    if typeToken.kind ≠ .typeName then throw (.variableTypeMissing typeToken.text)
    else if nameToken.kind ≠ .identifier then throw (.variableNameMissing nameToken.text)
    else
      let type := (ValueType.ofName? typeToken.text).getD .invalid
      let name := nameToken.text
      if type = .void then throw (.variableVoid typeToken.text name)
      else if ← look (isDeclared scope name) then throw (.variableExists name)
      else if scope.isFunction name then throw (.variableIsFunction name)
      else do
        let initial ← initialValue scope name type tokens
        let code := type.target ++ " " ++ name ++ match initial with
          | none => ";"
          | some init => " = " ++ init ++ ";"
        let scope ← look (declare name type scope)
        return (scope, code)

def assignment (scope : Scope) (tokens : List Token) : Look Fault String :=
  if tokens.length < 3 then throw .assignmentIncomplete
  else do
    let nameToken ← look (at? tokens 0)
    let name := nameToken.text
    if scope.isFunction name then throw (.assignedFunction name)
    else match ← look (lookup? scope name) with
      | none => throw (.variableMissing name)
      | some type => do
        let eq ← look (at? tokens 1)
        if eq.kind ≠ .equals then throw (.equalsMissing eq.text)
        else do
          let code ← valueAt scope .assigned (.place name) type tokens 2
          return name ++ " = " ++ code ++ ";"

/-- Whether a token can be printed: a literal, or a variable that is no arithmetic word. -/
def printable (scope : Scope) (t : Token) : Look Fault Unit :=
  match t.kind with
  | .string | .number | .boolean => return ()
  | .identifier => do
    if Vocabulary.isArithmetic t.text then throw (.unprintable t.text)
    else if ← look (isDeclared scope t.text) then return ()
    else throw (.variableMissing t.text)
  | _ => throw (.unprintable t.text)

/-- Printed values with `add` between them; a value is wanted next. -/
def printedValues (scope : Scope) : List Token → Look Fault (List String)
  | [] => throw .trailingAdd
  | [t] => do
    printable scope t
    return [t.text]
  | t :: sep :: rest => do
    printable scope t
    if sep.text ≠ "add" then throw (.addExpected sep.text)
    else do
      let values ← printedValues scope rest
      return t.text :: "+" :: values

def printStatement (scope : Scope) (tokens : List Token) : Look Fault String :=
  if tokens.length < 2 then throw .nothingPrinted
  else do
    let printed ← look (from? tokens 1)
    let values ← printedValues scope printed
    return "Console.WriteLine(" ++ Text.spaced values ++ ");"

def callStatement (scope : Scope) (tokens : List Token) : Look Fault String := do
  let rest ← look (from? tokens 1)
  let c ← call scope rest
  return c.code ++ ";"

theorem initialValue_eq (scope : Scope) (name : String) (type : ValueType) (a b c : Token)
    (rest : List Token) :
    initialValue scope name type (a :: b :: c :: rest)
      = told (Courtesy.Statement.initialValue scope name type rest) := by
  match rest with
  | [] => rfl
  | [eq] =>
    rw [initialValue, if_pos (by simp)]
    by_cases heq : eq.kind = .equals <;> simp [Courtesy.Statement.initialValue, heq]
  | eq :: first :: more =>
    have hvalue : valueAt scope .initialValue (.place name) type
        (a :: b :: c :: eq :: first :: more) 4
          = told (valueOrCall scope .initialValue (.place name) type first more) :=
      valueAt_eq scope _ _ type (i := 4) rfl
    have hlen : ¬ (a :: b :: c :: eq :: first :: more).length < 5 := by
      simp only [List.length_cons]
      omega
    rw [initialValue, if_pos (by simp), if_neg hlen, Courtesy.Statement.initialValue, told_ite,
      told_bind, ← hvalue]
    rfl

@[simp] theorem declaration_eq (scope : Scope) (tokens : List Token) :
    declaration scope tokens = told (Courtesy.Statement.declaration scope tokens) := by
  match tokens with
  | [] => rfl
  | [_] => rfl
  | [_, _] => rfl
  | lead :: typeToken :: nameToken :: rest =>
    have hlen : ¬ (lead :: typeToken :: nameToken :: rest).length < 3 := by
      simp only [List.length_cons]
      omega
    rw [declaration, if_neg hlen]
    simp only [Courtesy.Statement.declaration, at?_ofNat, List.getElem?_cons_succ,
      List.getElem?_cons_zero, look_some, pure_bind, isDeclared_eq, declare_eq, initialValue_eq,
      told_ite, told_bind]
    rfl

@[simp] theorem assignment_eq (scope : Scope) (tokens : List Token) :
    assignment scope tokens = told (Courtesy.Statement.assignment scope tokens) := by
  match tokens with
  | [] => rfl
  | [_] => rfl
  | [_, _] => rfl
  | nameToken :: eq :: first :: rest =>
    have hlen : ¬ (nameToken :: eq :: first :: rest).length < 3 := by
      simp only [List.length_cons]
      omega
    rw [assignment, if_neg hlen]
    simp only [Courtesy.Statement.assignment, at?_ofNat, List.getElem?_cons_zero, look_some,
      pure_bind, lookup?_eq, told_ite]
    split
    · rfl
    · cases scope.lookup? nameToken.text with
      | none => rfl
      | some type =>
        have hvalue : valueAt scope .assigned (.place nameToken.text) type
            (nameToken :: eq :: first :: rest) 2
              = told (valueOrCall scope .assigned (.place nameToken.text) type first rest) :=
          valueAt_eq scope _ _ type (i := 2) rfl
        dsimp only
        rw [told_ite, told_bind, ← hvalue]
        rfl

theorem printable_eq (scope : Scope) (t : Token) :
    printable scope t = told (Courtesy.Statement.printable scope t) := by
  cases hkind : t.kind <;> simp [printable, Courtesy.Statement.printable, hkind]

theorem printedValues_eq (scope : Scope) (tokens : List Token) :
    printedValues scope tokens = told (Courtesy.Statement.printedValues scope tokens) := by
  fun_induction printedValues scope tokens with
  | case1 => rfl
  | case2 t => simp [Courtesy.Statement.printedValues, printable_eq]
  | case3 t sep rest ih => simp [Courtesy.Statement.printedValues, printable_eq, ih]

@[simp] theorem printStatement_eq (scope : Scope) (tokens : List Token) :
    printStatement scope tokens = told (Courtesy.Statement.printStatement scope tokens) := by
  match tokens with
  | [] => rfl
  | [_] => rfl
  | lead :: t :: ts =>
    have hprinted : from? (lead :: t :: ts) 1 = some (t :: ts) := from?_natCast (a := 1) (by simp)
    rw [printStatement, if_neg (by simp), hprinted]
    simp [Courtesy.Statement.printStatement, printedValues_eq]

theorem callStatement_eq (scope : Scope) (lead : Token) (rest : List Token) :
    callStatement scope (lead :: rest)
      = told (Courtesy.Statement.callStatement scope (lead :: rest)) := by
  have hrest : from? (lead :: rest) 1 = some rest := from?_natCast (a := 1) (by simp)
  rw [callStatement, hrest]
  simp [Courtesy.Statement.callStatement]

/-! ## Headers of blocks -/

/-- The position of the first token of a kind, `-1` if there is none. -/
def indexOfKind (kind : Kind) (tokens : List Token) : Int := indexOf (·.kind == kind) tokens

/-- The tokens of a header from position `start` up to its opening brace, which ends the line. -/
def headerTokens (header : Header) (start : Int) (tokens : List Token) :
    Look Fault (List Token) := do
  let brace := indexOfKind .openBrace tokens
  if brace < 0 then throw (.braceMissing header)
  else if brace ≠ tokens.length - 1 then do
    let extra ← look (at? tokens (brace + 1))
    throw (.afterBrace extra.text header)
  else if start > brace then return []
  else look (slice? tokens start brace)

def forLoop (scope : Scope) (tokens : List Token) : Look Fault Opening := do
  let word := indexOfKind .fromWord tokens
  let mid := indexOfKind .toWord tokens
  if word ≠ 1 ∨ mid < 0 ∨ mid < word then throw .forFormat
  else do
    let bounds ← headerTokens .forLoop (word + 1) tokens
    let split := mid - word - 1
    let first ← look (upTo? bounds split)
    let last ← look (from? bounds (split + 1))
    if first.length = 0 ∨ last.length = 0 then throw .forBounds
    else if (← look (isDeclared scope counter)) || scope.isFunction counter then
      throw .counterTaken
    else do
      let lo ← value scope .loopStart (Token.join first) .integer
      let hi ← value scope .loopEnd (Token.join last) .integer
      return ⟨headed s!"for (int {counter} = {lo}; {counter} <= {hi}; {counter}++)",
        [⟨counter, .integer⟩]⟩

def whileLoop (scope : Scope) (tokens : List Token) : Look Fault Opening := do
  let word := indexOfKind .whileWord tokens
  if word ≠ 1 then throw .whileFormat
  else do
    let cond ← condition scope .whileLoop (← headerTokens .whileLoop (word + 1) tokens)
    return { code := headed ("while (" ++ cond ++ ")") }

def loop (scope : Scope) (tokens : List Token) : Look Fault Opening :=
  if tokens.length < 2 then throw .loopIncomplete
  else if indexOfKind .fromWord tokens ≥ 0 then forLoop scope tokens
  else if indexOfKind .whileWord tokens ≥ 0 then whileLoop scope tokens
  else do
    let second ← look (at? tokens 1)
    throw (.loopUnclear second.text)

def ifStatement (scope : Scope) (tokens : List Token) : Look Fault Opening := do
  let cond ← condition scope .ifStatement (← headerTokens .ifStatement 1 tokens)
  return { code := headed ("if (" ++ cond ++ ")") }

variable {kind : Kind} {tokens : List Token} {n : Nat}

theorem indexOfKind_eq_neg (h : Token.index? kind tokens = none) :
    indexOfKind kind tokens = -1 := by
  rw [Token.index?] at h
  rw [indexOfKind, indexOf, h]

theorem indexOfKind_eq (h : Token.index? kind tokens = some n) : indexOfKind kind tokens = n := by
  rw [Token.index?] at h
  rw [indexOfKind, indexOf, h]

theorem indexOfKind_eq_iff : indexOfKind kind tokens = n ↔ Token.index? kind tokens = some n := by
  refine ⟨fun h => ?_, indexOfKind_eq⟩
  cases hindex : Token.index? kind tokens with
  | none =>
    rw [indexOfKind_eq_neg hindex] at h
    omega
  | some m =>
    rw [indexOfKind_eq hindex] at h
    exact congrArg some (by omega)

theorem lt_of_index? (h : Token.index? kind tokens = some n) : n < tokens.length := by
  obtain ⟨t, ht, -⟩ := exists_kind_of_index? h
  exact (List.getElem?_eq_some_iff.mp ht).1

/-- The first tokens of two kinds stand at two places. -/
theorem ne_of_index? {kind' : Kind} (hne : kind ≠ kind') {m : Nat}
    (hm : Token.index? kind tokens = some m) (hn : Token.index? kind' tokens = some n) : m ≠ n := by
  rintro rfl
  obtain ⟨t, ht, rfl⟩ := exists_kind_of_index? hm
  obtain ⟨t', ht', rfl⟩ := exists_kind_of_index? hn
  rw [ht] at ht'
  cases ht'
  exact hne rfl

theorem headerTokens_eq (header : Header) (start : Nat) (tokens : List Token) :
    headerTokens header start tokens
      = told (Courtesy.Statement.headerTokens header start tokens) := by
  unfold headerTokens Courtesy.Statement.headerTokens
  cases hbrace : Token.index? .openBrace tokens with
  | none =>
    rw [indexOfKind_eq_neg hbrace]
    rfl
  | some brace =>
    have hlt := lt_of_index? hbrace
    rw [indexOfKind_eq hbrace]
    dsimp only
    rw [if_neg (by omega)]
    by_cases hlast : brace + 1 = tokens.length
    · rw [if_neg (by omega), List.drop_eq_nil_of_le (by omega)]
      by_cases hstart : brace < start
      · rw [if_pos (by omega), List.drop_eq_nil_of_le (by rw [List.length_take]; omega)]
        rfl
      · rw [if_neg (by omega), slice?_natCast (by omega) (by omega)]
        rfl
    · have hin : brace + 1 < tokens.length := by omega
      rw [if_pos (by omega), at?_succ hin, List.drop_eq_getElem_cons hin]
      rfl

/-- The bounds of a counting loop reach beyond the word between them: that word is not the brace,
and the brace is the last token. -/
theorem bounds_reach {header : Header} {bounds : List Token} {mid : Nat}
    (hfrom : Token.index? .fromWord tokens = some 1)
    (hto : Token.index? .toWord tokens = some mid) (hmid : 1 ≤ mid)
    (h : Courtesy.Statement.headerTokens header 2 tokens = .ok bounds) :
    2 ≤ mid ∧ mid - 1 ≤ bounds.length := by
  have hne : 1 ≠ mid := ne_of_index? (by decide) hfrom hto
  have hlt := lt_of_index? hto
  unfold Courtesy.Statement.headerTokens at h
  split at h
  · cases h
  · next brace hbrace =>
    have hbefore : mid ≠ brace := ne_of_index? (by decide) hto hbrace
    split at h
    · cases h
    · next hdrop =>
      cases h
      rw [List.drop_eq_nil_iff] at hdrop
      rw [List.length_drop, List.length_take]
      omega

theorem forLoop_eq (scope : Scope) (tokens : List Token) :
    forLoop scope tokens = told (Courtesy.Statement.forLoop scope tokens) := by
  unfold forLoop Courtesy.Statement.forLoop
  split
  · next mid hfrom hto =>
    rw [indexOfKind_eq hfrom, indexOfKind_eq hto]
    by_cases hmid : mid < 1
    · rw [if_pos hmid, if_pos (by omega)]
      rfl
    · rw [if_neg hmid, if_neg (by omega)]
      have hstart : ((1 : Nat) : Int) + 1 = (2 : Nat) := rfl
      rw [hstart, headerTokens_eq]
      cases hbounds : Courtesy.Statement.headerTokens .forLoop 2 tokens with
      | error fault => rfl
      | ok bounds =>
        obtain ⟨htwo, hreach⟩ := bounds_reach hfrom hto (by omega) hbounds
        have hsplit : (mid : Int) - (1 : Nat) - 1 = (mid - 2 : Nat) := by omega
        have hbehind : ((mid - 2 : Nat) : Int) + 1 = (mid - 1 : Nat) := by omega
        rw [told_ok, pure_bind]
        dsimp only
        rw [hsplit, hbehind, upTo?_natCast (by omega), from?_natCast hreach]
        simp [← List.length_eq_zero_iff]
  · next hnot =>
    have hformat : indexOfKind .fromWord tokens ≠ 1 ∨ indexOfKind .toWord tokens < 0 := by
      by_cases hfrom : Token.index? .fromWord tokens = some 1
      · right
        cases hto : Token.index? .toWord tokens with
        | none =>
          rw [indexOfKind_eq_neg hto]
          omega
        | some mid => exact absurd hto (hnot mid hfrom)
      · left
        exact fun hword => hfrom (indexOfKind_eq_iff.mp hword)
    rw [if_pos (by omega)]
    rfl

theorem whileLoop_eq (scope : Scope) (tokens : List Token) :
    whileLoop scope tokens = told (Courtesy.Statement.whileLoop scope tokens) := by
  unfold whileLoop Courtesy.Statement.whileLoop
  by_cases hword : Token.index? .whileWord tokens = some 1
  · have hstart : ((1 : Nat) : Int) + 1 = (2 : Nat) := rfl
    rw [indexOfKind_eq hword, if_neg (by omega), if_neg (by simp [hword]), hstart, headerTokens_eq]
    simp
  · have hformat : indexOfKind .whileWord tokens ≠ 1 := fun h => hword (indexOfKind_eq_iff.mp h)
    rw [if_pos hformat, if_pos hword]
    rfl

theorem indexOfKind_nonneg_iff (kind : Kind) (tokens : List Token) :
    indexOfKind kind tokens ≥ 0 ↔ (Token.index? kind tokens).isSome = true := by
  cases h : Token.index? kind tokens with
  | none => simp [indexOfKind_eq_neg h]
  | some n => simp [indexOfKind_eq h]

@[simp] theorem loop_eq (scope : Scope) (tokens : List Token) :
    loop scope tokens = told (Courtesy.Statement.loop scope tokens) := by
  match tokens with
  | [] => rfl
  | [_] => rfl
  | lead :: second :: rest =>
    rw [loop, if_neg (by simp), forLoop_eq, whileLoop_eq, Courtesy.Statement.loop]
    simp [indexOfKind_nonneg_iff]

@[simp] theorem ifStatement_eq (scope : Scope) (tokens : List Token) :
    ifStatement scope tokens = told (Courtesy.Statement.ifStatement scope tokens) := by
  have hheader : headerTokens .ifStatement 1 tokens
      = told (Courtesy.Statement.headerTokens .ifStatement 1 tokens) :=
    headerTokens_eq .ifStatement 1 tokens
  rw [ifStatement, hheader, Courtesy.Statement.ifStatement]
  simp

/-! ## Functions -/

/-- A pair of tokens as a parameter. -/
def param (scope : Scope) (typeToken nameToken : Token) : Look Fault Param :=
  if typeToken.kind ≠ .typeName ∨ nameToken.kind ≠ .identifier then
    throw (.paramInvalid typeToken.text)
  else
    let type := (ValueType.ofName? typeToken.text).getD .invalid
    let name := nameToken.text
    if type = .void then throw (.paramVoid typeToken.text name)
    else if scope.isFunction name then throw (.paramIsFunction name)
    else do
      if ← look (isDeclared scope name) then throw (.paramIsVariable name)
      else return ⟨name, type⟩

/-- The parameter at the position `i`, and then what `next` reads behind it. -/
def paramAt (tokens : List Token) (scope : Scope) (i : Nat) (next : Scope → Option ParamList) :
    Option ParamList := do
  let typeToken ← at? tokens i
  if i + 1 ≥ tokens.length then return ⟨scope, [], some (.paramIncomplete typeToken.text)⟩
  else do
    let nameToken ← at? tokens (i + 1)
    match ← (param scope typeToken nameToken).run with
    | .error fault => return ⟨scope, [], some fault⟩
    | .ok p => do
      let scope ← declare p.name p.type scope
      let more ← next scope
      return { more with params := p :: more.params }

/-- Parameters from the position `i` on; `first` says that none has been read yet. -/
def params (tokens : List Token) (scope : Scope) (first : Bool) (i : Nat) : Option ParamList :=
  if i < tokens.length then do
    let token ← at? tokens i
    if !first && token.kind = .comma then
      if i + 1 = tokens.length then return ⟨scope, [], some .paramTrailingComma⟩
      else paramAt tokens scope (i + 1) fun scope => params tokens scope false (i + 3)
    else paramAt tokens scope i fun scope => params tokens scope false (i + 2)
  else return ⟨scope, [], none⟩
termination_by tokens.length - i

/-- The shape of a header: `please define function TYPE NAME ( ... ) {`. -/
def functionHeader (tokens : List Token) : Look Fault FunctionHeader :=
  if tokens.length < 6 then throw .definitionShort
  else do
    let typeToken ← look (at? tokens 1)
    let nameToken ← look (at? tokens 2)
    let paren ← look (at? tokens 3)
    let close ← look (at? tokens (tokens.length - 2))
    let brace ← look (at? tokens (tokens.length - 1))
    if typeToken.kind ≠ .typeName then throw (.resultTypeExpected typeToken.text)
    else if nameToken.kind ≠ .identifier then throw (.functionNameExpected nameToken.text)
    else if paren.kind ≠ .openParen then throw (.openParenExpected paren.text)
    else if close.kind ≠ .closeParen then throw (.closeParenExpected close.text)
    else if brace.kind ≠ .openBrace then throw (.openBraceExpected brace.text)
    else do
      let inner ← look (slice? tokens 4 (tokens.length - 2))
      return ⟨nameToken.text, (ValueType.ofName? typeToken.text).getD .invalid, inner⟩

def definition (st : State) (tokens : List Token) : Option (State × Except Fault Opening) := do
  match ← (functionHeader tokens).run with
  | .error fault => return (st, .error fault)
  | .ok h =>
    let st := { st with
      function := some h.name
      settled := setMember h.name (h.result = .void) st.settled }
    if st.scope.isFunction h.name then return (st, .error (.functionExists h.name))
    else do
      let list ← params h.paramTokens st.scope.enterFunction true 0
      let f : Signature := ⟨h.name, h.result, list.params⟩
      let st := { st with scope := list.scope.declareFunction f }
      match list.fault? with
      | some fault => return ({ st with malformed := h.name :: st.malformed }, .error fault)
      | none =>
        if h.name = "main" ∧ list.params ≠ [] then return (st, .error (.mainHasParams h.name))
        else return (st, .ok { code := headed (methodHead f) })

def returnStatement (st : State) (tokens : List Token) : Look Fault (State × String) :=
  match st.function with
  | none => do
    let lead ← look (at? tokens 0)
    throw (.returnOutside lead.text)
  | some name =>
    match st.scope.function? name with
    | none => throw (.resultUnknown name)
    | some f =>
      if f.result = .void then
        if tokens.length > 1 then do
          let extra ← look (at? tokens 1)
          throw (.voidReturns extra.text)
        else return (st, "return;")
      else if tokens.length < 2 then do
        let lead ← look (at? tokens 0)
        throw (.resultMissing lead.text f.name f.result)
      else do
        let code ← valueAt st.scope .returned .caller f.result tokens 1
        let settled := if st.insideControl then st.settled else setMember name true st.settled
        return ({ st with settled := settled }, "return " ++ code ++ ";")

theorem param_eq (scope : Scope) (typeToken nameToken : Token) :
    param scope typeToken nameToken
      = told (Courtesy.Statement.param scope typeToken nameToken) := by
  simp [param, Courtesy.Statement.param]

theorem paramAt_last (tokens : List Token) (scope : Scope) {i : Nat} (hi : i < tokens.length)
    (hlast : i + 1 = tokens.length) (next : Scope → Option ParamList) :
    paramAt tokens scope i next = some ⟨scope, [], some (.paramIncomplete tokens[i].text)⟩ := by
  rw [paramAt, at?_eq_getElem hi, Option.bind_eq_bind, Option.bind_some, if_pos (by omega)]
  rfl

theorem paramAt_pair (tokens : List Token) (scope : Scope) {i : Nat} (hi : i + 1 < tokens.length)
    {next : Scope → Option ParamList} {more : Scope → ParamList}
    (hnext : ∀ scope, next scope = some (more scope)) :
    paramAt tokens scope i next
      = some (match Courtesy.Statement.param scope tokens[i] tokens[i + 1] with
        | .error fault => ⟨scope, [], some fault⟩
        | .ok p =>
          let list := more (scope.declare p.name p.type)
          { list with params := p :: list.params }) := by
  rw [paramAt, at?_eq_getElem (Nat.lt_of_succ_lt hi), Option.bind_eq_bind, Option.bind_some,
    if_neg (by omega), at?_succ hi]
  simp only [Option.bind_eq_bind, Option.bind_some, param_eq, run_told, declare_eq, hnext]
  cases Courtesy.Statement.param scope tokens[i] tokens[i + 1] <;> rfl

theorem params_eq (tokens : List Token) (scope : Scope) (first : Bool) (i : Nat) :
    params tokens scope first i
      = some (Courtesy.Statement.params scope first (tokens.drop i)) := by
  -- two or three tokens are read at a time, so the induction is on the number of those left
  induction hleft : tokens.length - i using Nat.strongRecOn generalizing scope first i with
  | ind left ih =>
    by_cases hi : i < tokens.length
    · rw [params, if_pos hi, at?_eq_getElem hi, Option.bind_eq_bind, Option.bind_some,
        List.drop_eq_getElem_cons hi]
      by_cases hcomma : (!first && decide (tokens[i].kind = .comma)) = true
      · rw [if_pos hcomma]
        by_cases hend : i + 1 = tokens.length
        · rw [if_pos hend, List.drop_eq_nil_of_le (by omega), Courtesy.Statement.params,
            if_pos hcomma]
          rfl
        · have hnext : i + 1 < tokens.length := by omega
          rw [if_neg hend, List.drop_eq_getElem_cons hnext]
          by_cases hlast : i + 2 = tokens.length
          · rw [paramAt_last tokens scope hnext hlast, List.drop_eq_nil_of_le (by omega),
              Courtesy.Statement.params, if_pos hcomma]
          · have hpair : i + 2 < tokens.length := by omega
            rw [paramAt_pair tokens scope hpair (fun s => ih _ (by omega) s false (i + 3) rfl),
              List.drop_eq_getElem_cons hpair, Courtesy.Statement.params]
            exact congrArg some (if_pos hcomma).symm
      · rw [if_neg hcomma]
        by_cases hlast : i + 1 = tokens.length
        · rw [paramAt_last tokens scope hi hlast, List.drop_eq_nil_of_le (by omega),
            Courtesy.Statement.params, if_neg hcomma]
        · have hpair : i + 1 < tokens.length := by omega
          rw [paramAt_pair tokens scope hpair (fun s => ih _ (by omega) s false (i + 2) rfl),
            List.drop_eq_getElem_cons hpair, Courtesy.Statement.params.eq_def]
          exact congrArg some (if_neg hcomma).symm
    · rw [params, if_neg hi, List.drop_eq_nil_of_le (by omega)]
      rfl

theorem functionHeader_eq (tokens : List Token) :
    functionHeader tokens = told (Courtesy.Statement.functionHeader tokens) := by
  unfold Courtesy.Statement.functionHeader
  split
  · next lead typeToken nameToken paren rest =>
    split
    · next brace close inner hrest =>
      rw [List.reverse_eq_iff, List.reverse_cons, List.reverse_cons, List.append_assoc] at hrest
      have hlen : ((lead :: typeToken :: nameToken :: paren :: rest).length : Int)
          = inner.length + 6 := by
        simp only [hrest, List.length_cons, List.length_append, List.length_reverse,
          List.length_nil]
        omega
      have hclose : at? (lead :: typeToken :: nameToken :: paren :: rest) (inner.length + 4)
          = some close := by
        rw [hrest]
        exact (at?_natCast _ (inner.length + 4)).trans (by simp)
      have hbrace : at? (lead :: typeToken :: nameToken :: paren :: rest) (inner.length + 5)
          = some brace := by
        rw [hrest]
        exact (at?_natCast _ (inner.length + 5)).trans (by simp)
      have hinner : slice? (lead :: typeToken :: nameToken :: paren :: rest) 4 (inner.length + 4)
          = some inner.reverse := by
        have hmiddle :=
          slice?_middle [lead, typeToken, nameToken, paren] inner.reverse [close, brace]
        rw [List.length_reverse, Int.add_comm] at hmiddle
        rw [hrest]
        exact hmiddle
      have hsecond : (inner.length : Int) + 6 - 2 = inner.length + 4 := by omega
      have hlast : (inner.length : Int) + 6 - 1 = inner.length + 5 := by omega
      rw [functionHeader, if_neg (by omega), hlen, hsecond, hlast, hclose, hbrace, hinner]
      simp
    · next hshort =>
      have hrest : rest.reverse.length < 2 := by
        match hrev : rest.reverse with
        | [] => simp
        | [_] => simp
        | brace :: close :: inner => exact absurd hrev (hshort brace close inner)
      rw [functionHeader, if_pos (by simp at hrest ⊢; omega)]
      rfl
  · next hshort =>
    match tokens with
    | [] => rfl
    | [_] => rfl
    | [_, _] => rfl
    | [_, _, _] => rfl
    | a :: b :: c :: d :: rest => exact absurd rfl (hshort a b c d rest)

theorem definition_eq (st : State) (tokens : List Token) :
    definition st tokens = some (Courtesy.Statement.definition st tokens) := by
  unfold definition Courtesy.Statement.definition
  rw [functionHeader_eq, run_told]
  cases Courtesy.Statement.functionHeader tokens with
  | error fault => rfl
  | ok h =>
    simp only [Option.bind_eq_bind, Option.bind_some, params_eq, List.drop_zero]
    split
    · rfl
    · obtain ⟨scope, list, fault?⟩ :=
        Courtesy.Statement.params st.scope.enterFunction true h.paramTokens
      cases fault? with
      | some fault => rfl
      | none =>
        dsimp only
        split <;> rfl

theorem returnStatement_eq (st : State) (lead : Token) (rest : List Token) :
    returnStatement st (lead :: rest)
      = told (Courtesy.Statement.returnStatement st (lead :: rest)) := by
  unfold returnStatement Courtesy.Statement.returnStatement
  cases st.function with
  | none => rfl
  | some name =>
    dsimp only
    cases st.scope.function? name with
    | none => rfl
    | some f =>
      dsimp only
      cases rest with
      | nil => cases f.result <;> rfl
      | cons first more =>
        have hvalue : ∀ type, valueAt st.scope .returned .caller type (lead :: first :: more) 1
            = told (valueOrCall st.scope .returned .caller type first more) := fun type =>
          valueAt_eq st.scope .returned .caller type (i := 1) rfl
        rw [hvalue, if_neg (by simp : ¬ (lead :: first :: more).length < 2)]
        cases f.result <;> simp

end Courtesy.Positional.Statement
