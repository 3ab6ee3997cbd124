import Courtesy.Proofs.Steps

/-!
# Columns do not matter to statements

A statement is carried out on the texts and kinds of its tokens. Their columns only show in
diagnostics: tokens that differ in their columns lead to the same code, the same faults and the same
state (`perform_columnless`). The lines of the program that a state keeps for the columns of
diagnostics are handed on and matter as little (`perform_over`).
-/

namespace Courtesy

open Statement

/-! ## Tokens without their columns -/

namespace Token

def columnless (t : Token) : Token := { t with column := 0 }

@[simp] theorem text_columnless (t : Token) : t.columnless.text = t.text := by
  cases t
  rfl

@[simp] theorem kind_columnless (t : Token) : t.columnless.kind = t.kind := by
  cases t
  rfl

section

variable (ts : List Token)

@[simp] theorem join_columnless : join (ts.map columnless) = join ts := by
  simp [join, texts, Function.comp_def]

@[simp] theorem index?_columnless (kind : Kind) :
    index? kind (ts.map columnless) = index? kind ts := by
  simp [index?, List.findIdx?_map, Function.comp_def]

end

end Token

namespace Statement

open Token (columnless)

section

variable (scope : Scope) (ts : List Token)

/-! ## Values -/

@[simp] theorem condition_columnless (header : Header) :
    condition scope header (ts.map columnless) = condition scope header ts := by
  simp [condition]

@[simp] theorem closing?_columnless (depth : Nat) :
    closing? depth (ts.map columnless) = closing? depth ts := by
  induction ts generalizing depth with
  | nil => rfl
  | cons t ts ih => simp only [List.map_cons, closing?, Token.kind_columnless, ih]

theorem consSegment_columnless (t : Token) (ss : List (List Token)) :
    consSegment t.columnless (ss.map (List.map columnless)) =
      (consSegment t ss).map (List.map columnless) := by
  cases ss <;> rfl

theorem segments_columnless (depth : Int) :
    segments depth (ts.map columnless) = (segments depth ts).map (List.map columnless) := by
  induction ts generalizing depth with
  | nil => rfl
  | cons t ts ih =>
    have hdepth : depthChange t.columnless = depthChange t := rfl
    rw [List.map_cons, segments, segments, Token.kind_columnless, hdepth, ih, ih]
    by_cases hcomma : t.kind = .comma ∧ depth = 0
    · rw [if_pos hcomma, if_pos hcomma]
      rfl
    · rw [if_neg hcomma, if_neg hcomma, consSegment_columnless]

theorem arguments?_columnless :
    arguments? (ts.map columnless) = (arguments? ts).map (List.map (List.map columnless)) := by
  unfold arguments?
  rw [List.isEmpty_map, segments_columnless]
  split
  · rfl
  · have hany : ((segments 0 ts).map (List.map columnless)).any List.isEmpty =
        (segments 0 ts).any List.isEmpty := by
      simp [List.any_map, Function.comp_def]
    dsimp only
    rw [hany]
    split <;> rfl

theorem callBody_columnless (name : String) :
    callBody name (ts.map columnless) = (callBody name ts).map (List.map columnless) := by
  cases ts with
  | nil => rfl
  | cons t ts =>
    have hclosing := closing?_columnless (t :: ts) 0
    rw [List.map_cons] at hclosing
    simp only [callBody, List.map_cons, Token.kind_columnless, hclosing]
    split
    · rfl
    · cases closing? 0 (t :: ts) with
      | none => rfl
      | some c =>
        dsimp only
        rw [← List.map_cons, ← List.map_drop]
        cases hdrop : (t :: ts).drop (c + 1) with
        | nil => simp [Except.map]
        | cons extra more => rfl

theorem argumentCodes_columnless (f : Signature) (args : List (List Token)) :
    argumentCodes scope f (args.map (List.map columnless)) = argumentCodes scope f args := by
  unfold argumentCodes
  rw [List.zip_map_left]
  generalize args.zip f.params = pairs
  induction pairs with
  | nil => rfl
  | cons p pairs ih =>
    rw [List.map_cons, List.mapM_cons, List.mapM_cons, ih]
    simp

@[simp] theorem call_columnless : call scope (ts.map columnless) = call scope ts := by
  cases ts with
  | nil => rfl
  | cons nameToken rest =>
    simp only [call, List.map_cons, Token.kind_columnless, Token.text_columnless]
    by_cases hname : nameToken.kind ≠ .identifier
    · rw [if_pos hname, if_pos hname]
    · rw [if_neg hname, if_neg hname]
      cases scope.function? nameToken.text with
      | none => rfl
      | some f =>
        dsimp only
        rw [callBody_columnless]
        cases callBody nameToken.text rest with
        | error fault => rfl
        | ok body =>
          simp only [Except.map, bind, Except.bind]
          rw [arguments?_columnless]
          cases arguments? body with
          | none => rfl
          | some args =>
            simp only [Option.map_some, List.length_map, argumentCodes_columnless]

@[simp] theorem valueOrCall_columnless (place : Place) (receiver : Receiver) (expected : ValueType)
    (first : Token) :
    valueOrCall scope place receiver expected first.columnless (ts.map columnless) =
      valueOrCall scope place receiver expected first ts := by
  have hjoin := Token.join_columnless (first :: ts)
  rw [List.map_cons] at hjoin
  simp only [valueOrCall, callValue, Token.kind_columnless, call_columnless, hjoin]

/-! ## Statements without a block -/

theorem initialValue_columnless (name : String) (type : ValueType) :
    initialValue scope name type (ts.map columnless) = initialValue scope name type ts := by
  rcases ts with _ | ⟨eq, _ | ⟨first, more⟩⟩
  · rfl
  · simp [initialValue]
  · simp [initialValue]

theorem declaration_columnless :
    declaration scope (ts.map columnless) = declaration scope ts := by
  rcases ts with _ | ⟨lead, _ | ⟨typeToken, _ | ⟨nameToken, rest⟩⟩⟩
  · rfl
  · rfl
  · rfl
  · simp only [List.map_cons, declaration, Token.kind_columnless, Token.text_columnless,
      initialValue_columnless]

theorem assignment_columnless : assignment scope (ts.map columnless) = assignment scope ts := by
  rcases ts with _ | ⟨nameToken, _ | ⟨eq, _ | ⟨first, rest⟩⟩⟩
  · rfl
  · rfl
  · rfl
  · simp only [List.map_cons, assignment, Token.kind_columnless, Token.text_columnless,
      valueOrCall_columnless]

theorem printable_columnless (t : Token) : printable scope t.columnless = printable scope t := by
  simp only [printable, Token.kind_columnless, Token.text_columnless]

theorem printedValues_columnless :
    printedValues scope (ts.map columnless) = printedValues scope ts := by
  fun_induction printedValues scope ts with
  | case1 => rfl
  | case2 t => simp only [List.map_cons, List.map_nil, printedValues, printable_columnless,
      Token.text_columnless]
  | case3 t sep rest ih =>
    simp only [List.map_cons, printedValues, printable_columnless, Token.text_columnless, ih]

theorem printStatement_columnless :
    printStatement scope (ts.map columnless) = printStatement scope ts := by
  rcases ts with _ | ⟨lead, _ | ⟨t, more⟩⟩
  · rfl
  · rfl
  · have hvalues := printedValues_columnless scope (t :: more)
    rw [List.map_cons] at hvalues
    simp only [List.map_cons, printStatement, hvalues]

theorem callStatement_columnless :
    callStatement scope (ts.map columnless) = callStatement scope ts := by
  simp only [callStatement, ← List.map_drop, call_columnless]

/-! ## Headers of blocks -/

theorem headerTokens_columnless (header : Header) (start : Nat) :
    headerTokens header start (ts.map columnless) =
      (headerTokens header start ts).map (List.map columnless) := by
  unfold headerTokens
  rw [Token.index?_columnless]
  cases Token.index? .openBrace ts with
  | none => rfl
  | some brace =>
    dsimp only
    rw [← List.map_drop]
    cases ts.drop (brace + 1) with
    | nil => simp [Except.map]
    | cons extra more => rfl

theorem forLoop_columnless : forLoop scope (ts.map columnless) = forLoop scope ts := by
  simp only [forLoop, Token.index?_columnless]
  split
  · split
    · rfl
    · rw [headerTokens_columnless]
      cases headerTokens .forLoop 2 ts with
      | error fault => rfl
      | ok bounds =>
        simp only [Except.map, bind, Except.bind, ← List.map_take, ← List.map_drop,
          List.isEmpty_map, Token.join_columnless]
  · rfl

theorem whileLoop_columnless : whileLoop scope (ts.map columnless) = whileLoop scope ts := by
  simp only [whileLoop, Token.index?_columnless, headerTokens_columnless]
  split
  · rfl
  · cases headerTokens .whileLoop 2 ts with
    | error fault => rfl
    | ok cond => simp only [Except.map, bind, Except.bind, condition_columnless]

theorem loop_columnless : loop scope (ts.map columnless) = loop scope ts := by
  rcases ts with _ | ⟨lead, _ | ⟨second, rest⟩⟩
  · rfl
  · rfl
  · have hfrom := Token.index?_columnless (lead :: second :: rest) .fromWord
    have hwhile := Token.index?_columnless (lead :: second :: rest) .whileWord
    have hfor := forLoop_columnless scope (lead :: second :: rest)
    have hcond := whileLoop_columnless scope (lead :: second :: rest)
    simp only [List.map_cons] at hfrom hwhile hfor hcond
    simp only [List.map_cons, loop, hfrom, hwhile, hfor, hcond, Token.text_columnless]

theorem ifStatement_columnless : ifStatement scope (ts.map columnless) = ifStatement scope ts := by
  simp only [ifStatement, headerTokens_columnless]
  cases headerTokens .ifStatement 1 ts with
  | error fault => rfl
  | ok cond => simp only [Except.map, bind, Except.bind, condition_columnless]

/-! ## Functions -/

theorem param_columnless (typeToken nameToken : Token) :
    param scope typeToken.columnless nameToken.columnless = param scope typeToken nameToken := by
  simp only [param, Token.kind_columnless, Token.text_columnless]

theorem params_columnless (first : Bool) :
    params scope first (ts.map columnless) = params scope first ts := by
  fun_induction params scope first ts with
  | case1 => rfl
  | case2 scope first t hc => simp [params, hc]
  | case3 scope first t hc => simp [params, hc]
  | case4 scope first a b hc => simp [params, hc]
  | case5 scope first a b hc c rest fault hp =>
    simp [params, hc, param_columnless, hp]
  | case6 scope first a b hc c rest p hp more =>
    rename_i ih
    simp [params, hc, param_columnless, hp, ih, more]
  | case7 scope first a b rest hc fault hp =>
    rw [List.map_cons, List.map_cons, params.eq_def]
    simp [hc, param_columnless, hp]
  | case8 scope first a b rest hc p hp more =>
    rename_i ih
    rw [List.map_cons, List.map_cons, params.eq_def]
    simp [hc, param_columnless, hp, ih, more]

theorem functionHeader_columnless :
    functionHeader (ts.map columnless) = (functionHeader ts).map fun h =>
      { h with paramTokens := h.paramTokens.map columnless } := by
  rcases ts with _ | ⟨lead, _ | ⟨typeToken, _ | ⟨nameToken, _ | ⟨paren, rest⟩⟩⟩⟩
  · rfl
  · rfl
  · rfl
  · rfl
  · simp only [List.map_cons, functionHeader, ← List.map_reverse]
    rcases rest.reverse with _ | ⟨brace, _ | ⟨close, inner⟩⟩
    · rfl
    · rfl
    · simp only [List.map_cons, Token.kind_columnless, Token.text_columnless]
      -- the five tokens around the parameters are checked in turn
      repeat'
        split
        · rfl
      simp [Except.map]

end

theorem definition_columnless (st : State) (ts : List Token) :
    definition st (ts.map columnless) = definition st ts := by
  unfold definition
  rw [functionHeader_columnless]
  cases functionHeader ts with
  | error fault => rfl
  | ok h => simp only [Except.map, params_columnless]

theorem returnStatement_columnless (st : State) (ts : List Token) :
    returnStatement st (ts.map columnless) = returnStatement st ts := by
  have hlead : ((ts.map columnless).head?.map (·.text)) = ts.head?.map (·.text) := by
    cases ts with
    | nil => rfl
    | cons t ts => simp
  unfold returnStatement
  rw [hlead, ← List.map_drop]
  cases st.function with
  | none => rfl
  | some name =>
    dsimp only
    cases st.scope.function? name with
    | none => rfl
    | some f =>
      dsimp only
      cases ts.drop 1 with
      | nil => cases f.result <;> rfl
      | cons first rest =>
        cases f.result <;> simp only [List.map_cons, Token.text_columnless, valueOrCall_columnless]

theorem perform_columnless (st : State) (kind : Kind) (ts : List Token) :
    perform st kind (ts.map columnless) = perform st kind ts := by
  simp only [perform, declaration_columnless, assignment_columnless, printStatement_columnless,
    loop_columnless, ifStatement_columnless, definition_columnless, returnStatement_columnless,
    callStatement_columnless]

/-! ## The lines of a program -/

/-- A state that keeps other lines of source. -/
def State.over (lines : List String) (st : State) : State := { st with lines := lines }

section

variable (lines : List String) (st : State) (ts : List Token)

theorem definition_over :
    definition (st.over lines) ts = ((definition st ts).1.over lines, (definition st ts).2) := by
  unfold definition
  cases functionHeader ts with
  | error fault => rfl
  | ok h =>
    have hscope : (st.over lines).scope = st.scope := rfl
    dsimp only
    rw [hscope]
    split
    · rfl
    · split
      · rfl
      · split <;> rfl

theorem returnStatement_over :
    returnStatement (st.over lines) ts =
      (returnStatement st ts).map fun r => (r.1.over lines, r.2) := by
  have hfunction : (st.over lines).function = st.function := rfl
  have hscope : (st.over lines).scope = st.scope := rfl
  have hcontrol : (st.over lines).insideControl = st.insideControl := rfl
  have hsettled : (st.over lines).settled = st.settled := rfl
  unfold returnStatement
  rw [hfunction, hscope, hcontrol, hsettled]
  cases st.function with
  | none => rfl
  | some name =>
    dsimp only
    cases st.scope.function? name with
    | none => rfl
    | some f =>
      dsimp only
      cases ts.drop 1 with
      | nil => cases f.result <;> rfl
      | cons first rest =>
        split
        · rfl
        · rfl
        · rfl
        · cases valueOrCall st.scope .returned .caller _ _ _ with
          | error fault => rfl
          | ok code => rfl

theorem perform_over (kind : Kind) :
    perform (st.over lines) kind ts =
      (perform st kind ts).map fun o => ⟨o.state.over lines, o.result⟩ := by
  have hscope : (st.over lines).scope = st.scope := rfl
  cases kind with
  | create =>
    simp only [perform, hscope]
    cases declaration st.scope ts <;> rfl
  | identifier =>
    simp only [perform, hscope]
    cases assignment st.scope ts <;> rfl
  | print =>
    simp only [perform, hscope]
    cases printStatement st.scope ts <;> rfl
  | call =>
    simp only [perform, hscope]
    cases callStatement st.scope ts <;> rfl
  | giveBack =>
    simp only [perform, returnStatement_over]
    cases returnStatement st ts <;> rfl
  | define =>
    simp only [perform, definition_over]
    rfl
  | _ => rfl

end

end Statement

end Courtesy
