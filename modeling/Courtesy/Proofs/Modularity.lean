import Courtesy.Proofs.Steps

/-!
# Functions depend on the function table alone

Let two translations stand outside of all blocks with the same function table. Whatever else they
have read, they treat a function that is new to the table alike: the same code, the same diagnostics
up to the numbering of lines, and the same table behind it (`function_lines_alike`).

Two relations carry the proof. `State.Peer` is what the two translations have in common before the
header. The header drops all frames, names the function and decides anew whether it still owes a
return, so behind it the states are `State.Alike`, and every further line of the function keeps them
so (`Step.ofLine_alike`). The column of a diagnostic is searched for in earlier lines too, but only
a place in the line itself is told (`Location.columnAt_eq`).
-/

namespace Courtesy

open Statement

/-! ## The place of a blamed token -/

namespace Location

/-- A place that is found further up is in another line. -/
theorem locate?_above {lines : List String} {token : String} {last : Nat} {backs : List Nat}
    (hb : ∀ back ∈ backs, 0 < back) {line column : Nat}
    (h : (backs.findSome? fun back =>
      if back ≤ last then do
        let line ← lines[last - back]?
        let offset ← offset? token line
        return (last - back + 1, offset + 1)
      else none) = some (line, column)) : line ≠ last + 1 := by
  obtain ⟨back, hmem, hback⟩ := List.exists_of_findSome?_eq_some h
  have := hb back hmem
  split at hback
  · simp only [Option.bind_eq_bind, Option.bind_eq_some_iff, Option.pure_def, Option.some.injEq,
      Prod.mk.injEq] at hback
    obtain ⟨_, _, _, _, hline, _⟩ := hback
    omega
  · cases hback

/-- Looking for a token from a line upwards and keeping only a place in the line itself amounts to
looking in that line. -/
theorem columnAt_eq {lines : List String} {i : Nat} {text : String}
    (h : lines[i]? = some text) (token : String) :
    columnAt lines token i = column text token := by
  obtain ⟨hi, -⟩ := List.getElem?_eq_some_iff.1 h
  unfold columnAt locate? column
  by_cases ht : (token == "") = true
  · simp [ht]
  · have hlast : min (i : Int).toNat (lines.length - 1) = i := by omega
    have hstart : (token == "" || decide ((i : Int) < 0)) = false := by
      simp only [Bool.or_eq_false_iff, decide_eq_false_iff_not]
      exact ⟨by simpa using ht, by omega⟩
    rw [hstart, if_neg ht]
    dsimp only
    rw [if_neg Bool.false_ne_true, hlast, show List.range lookback = 0 :: [1, 2, 3, 4] from rfl,
      List.findSome?_cons, if_pos (Nat.zero_le i), Nat.sub_zero, h]
    cases ho : offset? token text with
    | some offset => simp [ho]
    | none =>
      simp only [Option.bind_eq_bind, Option.bind_some, ho, Option.bind_none]
      split
      · rename_i line column hfound
        rw [if_neg (locate?_above (by decide) hfound)]
      · rfl

end Location

/-- The column of a diagnostic is read off the line that is being read. -/
theorem Statement.Fault.diagnostic_eq {st : State} {text : String}
    (h : st.lines[st.line]? = some text) (fault : Fault) :
    fault.diagnostic st =
      { category := fault.category
        message := fault.message
        line := st.lineNumber
        column := Location.column text fault.blame } := by
  rw [Fault.diagnostic, Location.columnAt_eq h]

/-! ## Scopes that answer alike -/

namespace Scope

/-- The same frames, and the same answer for the name of every function. The order of the function
table is no part of it. -/
structure Alike (s t : Scope) : Prop where
  frames : s.frames = t.frames
  function? : ∀ name, s.function? name = t.function? name

namespace Alike

variable {s t : Scope} (h : s.Alike t)

include h

theorem visible : s.visible = t.visible := congrArg visibleIn h.frames

theorem lookup? (name : String) : s.lookup? name = t.lookup? name :=
  congrArg (List.findSome? (List.lookup name)) h.frames

theorem isDeclared (name : String) : s.isDeclared name = t.isDeclared name :=
  congrArg Option.isSome (h.lookup? name)

theorem isFunction (name : String) : s.isFunction name = t.isFunction name :=
  congrArg Option.isSome (h.function? name)

theorem push : s.push.Alike t.push :=
  ⟨congrArg ([] :: ·) h.frames, h.function?⟩

theorem pop : s.pop.Alike t.pop :=
  ⟨congrArg List.tail h.frames, h.function?⟩

theorem declare (name : String) (type : ValueType) :
    (s.declare name type).Alike (t.declare name type) := by
  constructor
  · unfold Scope.declare
    rw [h.frames]
    cases t.frames <;> rfl
  · intro f
    unfold Scope.function?
    rw [functions_declare, functions_declare]
    exact h.function? f

theorem declareAll (params : List Param) : (s.declareAll params).Alike (t.declareAll params) := by
  induction params generalizing s t with
  | nil => exact h
  | cons p ps ih => exact ih (h.declare p.name p.type)

theorem declareFunction (f : Signature) : (s.declareFunction f).Alike (t.declareFunction f) := by
  refine ⟨h.frames, fun name => ?_⟩
  rw [function?_declareFunction, function?_declareFunction, h.function?]

end Alike

end Scope

/-! ## Statements in scopes that answer alike -/

namespace Statement

section Alike

variable {s t : Scope} (h : s.Alike t)

include h

theorem value_alike (place : Place) (expr : String) (expected : ValueType) :
    value s place expr expected = value t place expr expected := by
  simp only [value, h.visible]

theorem condition_alike (header : Header) (tokens : List Token) :
    condition s header tokens = condition t header tokens := by
  simp only [condition, h.visible]

theorem call_alike (tokens : List Token) : call s tokens = call t tokens := by
  simp only [call, argumentCodes, h.function?, value_alike h]

theorem valueOrCall_alike (place : Place) (receiver : Receiver) (expected : ValueType)
    (first : Token) (rest : List Token) :
    valueOrCall s place receiver expected first rest
      = valueOrCall t place receiver expected first rest := by
  simp only [valueOrCall, callValue, call_alike h, value_alike h]

theorem assignment_alike (tokens : List Token) : assignment s tokens = assignment t tokens := by
  unfold assignment
  simp only [h.isFunction, h.lookup?, valueOrCall_alike h]

theorem printedValues_alike (tokens : List Token) :
    printedValues s tokens = printedValues t tokens := by
  have hp : printable s = printable t := by
    funext token
    simp only [printable, h.isDeclared]
  induction tokens using printedValues.induct with
  | case1 => rfl
  | case2 token => simp only [printedValues, hp]
  | case3 token sep rest ih => simp only [printedValues, hp, ih]

theorem printStatement_alike (tokens : List Token) :
    printStatement s tokens = printStatement t tokens := by
  unfold printStatement
  simp only [printedValues_alike h]

theorem loop_alike (tokens : List Token) : loop s tokens = loop t tokens := by
  simp only [loop, forLoop, whileLoop, h.isDeclared, h.isFunction, value_alike h,
    condition_alike h]

theorem ifStatement_alike (tokens : List Token) : ifStatement s tokens = ifStatement t tokens := by
  simp only [ifStatement, condition_alike h]

theorem callStatement_alike (tokens : List Token) :
    callStatement s tokens = callStatement t tokens := by
  simp only [callStatement, call_alike h]

theorem initialValue_alike (name : String) (type : ValueType) (tokens : List Token) :
    initialValue s name type tokens = initialValue t name type tokens := by
  unfold initialValue
  simp only [valueOrCall_alike h]

/-- A declaration ends alike; where it is accepted, both scopes take the same variable. -/
theorem declaration_alike (tokens : List Token) :
    (∃ fault, declaration s tokens = .error fault ∧ declaration t tokens = .error fault) ∨
      ∃ name type line, declaration s tokens = .ok (s.declare name type, line) ∧
        declaration t tokens = .ok (t.declare name type, line) := by
  rcases tokens with _ | ⟨lead, _ | ⟨typeToken, _ | ⟨nameToken, rest⟩⟩⟩
  · exact .inl ⟨_, rfl, rfl⟩
  · exact .inl ⟨_, rfl, rfl⟩
  · exact .inl ⟨_, rfl, rfl⟩
  · simp only [declaration, h.isDeclared, h.isFunction, initialValue_alike h]
    split
    · exact .inl ⟨_, rfl, rfl⟩
    · split
      · exact .inl ⟨_, rfl, rfl⟩
      · split
        · exact .inl ⟨_, rfl, rfl⟩
        · split
          · exact .inl ⟨_, rfl, rfl⟩
          · split
            · exact .inl ⟨_, rfl, rfl⟩
            · cases initialValue t nameToken.text _ rest with
              | error fault => exact .inl ⟨fault, rfl, rfl⟩
              | ok initial => exact .inr ⟨_, _, _, rfl, rfl⟩

theorem param_alike (typeToken nameToken : Token) :
    param s typeToken nameToken = param t typeToken nameToken := by
  simp only [param, h.isDeclared, h.isFunction]

theorem params_alike (first : Bool) (tokens : List Token) :
    (params s first tokens).scope.Alike (params t first tokens).scope ∧
      (params s first tokens).params = (params t first tokens).params ∧
      (params s first tokens).fault? = (params t first tokens).fault? := by
  fun_induction params s first tokens generalizing t with
  | case1 s first => exact ⟨h, rfl, rfl⟩
  | case2 s first token hc =>
    rw [params, if_pos hc]
    exact ⟨h, rfl, rfl⟩
  | case3 s first token hc =>
    rw [params, if_neg hc]
    exact ⟨h, rfl, rfl⟩
  | case4 s first a b hc =>
    rw [params, if_pos hc]
    exact ⟨h, rfl, rfl⟩
  | case5 s first a b hc c rest fault hp =>
    rw [params, if_pos hc]
    dsimp only
    rw [← param_alike h, hp]
    exact ⟨h, rfl, rfl⟩
  | case6 s first a b hc c rest p hp more =>
    rename_i ih
    rw [params, if_pos hc]
    dsimp only
    rw [← param_alike h, hp]
    obtain ⟨hs, hps, hf⟩ := ih (h.declare p.name p.type)
    exact ⟨hs, congrArg (p :: ·) hps, hf⟩
  | case7 s first a b rest hc fault hp =>
    rw [params.eq_def t first (a :: b :: rest)]
    dsimp only
    rw [if_neg hc, ← param_alike h, hp]
    exact ⟨h, rfl, rfl⟩
  | case8 s first a b rest hc p hp more =>
    rename_i ih
    rw [params.eq_def t first (a :: b :: rest)]
    dsimp only
    rw [if_neg hc, ← param_alike h, hp]
    obtain ⟨hs, hps, hf⟩ := ih (h.declare p.name p.type)
    exact ⟨hs, congrArg (p :: ·) hps, hf⟩

end Alike

/-! ## States that answer alike -/

theorem mem_setMember_self (name : String) (isIn : Bool) (names : List String) :
    name ∈ setMember name isIn names ↔ isIn = true := by
  unfold setMember
  cases isIn <;> simp

/-- The same depth and the same function table. -/
structure State.Peer (s t : State) : Prop where
  blocks : s.blocks.length = t.blocks.length
  indent : s.indent = t.indent
  insideControl : s.insideControl = t.insideControl
  function? : ∀ name, s.scope.function? name = t.scope.function? name

/-- States between which the rest of a function cannot tell. Which functions are settled matters
only for the one that is being read. -/
structure State.Alike (s t : State) : Prop extends s.Peer t where
  frames : s.scope.frames = t.scope.frames
  function : s.function = t.function
  settled : ∀ name, s.function = some name → (name ∈ s.settled ↔ name ∈ t.settled)

theorem State.Alike.scope {s t : State} (h : s.Alike t) : s.scope.Alike t.scope :=
  ⟨h.frames, h.function?⟩

/-- A header in order that names a new function leaves nothing of the earlier code but the function
table. -/
theorem definition_new {s t : State} (hp : s.Peer t) {tokens : List Token} {h : FunctionHeader}
    (hh : functionHeader tokens = .ok h) (hnew : s.scope.function? h.name = none) :
    (definition s tokens).2 = (definition t tokens).2 ∧
      (definition s tokens).1.Alike (definition t tokens).1 := by
  have hs : s.scope.isFunction h.name = false := by simp [Scope.isFunction, hnew]
  have ht : t.scope.isFunction h.name = false := by simp [Scope.isFunction, ← hp.function?, hnew]
  have henter : s.scope.enterFunction.Alike t.scope.enterFunction := ⟨rfl, hp.function?⟩
  obtain ⟨hscope, hparams, hfault⟩ := params_alike henter true h.paramTokens
  have hdeclared := hscope.declareFunction
  have hsettled : ∀ name, some h.name = some name →
      (name ∈ setMember h.name (h.result = .void) s.settled ↔
        name ∈ setMember h.name (h.result = .void) t.settled) := by
    intro name hname
    cases hname
    rw [mem_setMember_self, mem_setMember_self]
  simp only [definition, hh, hs, ht, Bool.false_eq_true, ↓reduceIte, hparams, hfault]
  split
  · exact ⟨rfl, ⟨hp.blocks, hp.indent, hp.insideControl, (hdeclared _).function?⟩,
      (hdeclared ⟨h.name, h.result, _⟩).frames, rfl, hsettled⟩
  · split
    · exact ⟨rfl, ⟨hp.blocks, hp.indent, hp.insideControl, (hdeclared _).function?⟩,
        (hdeclared ⟨h.name, h.result, _⟩).frames, rfl, hsettled⟩
    · exact ⟨rfl, ⟨hp.blocks, hp.indent, hp.insideControl, (hdeclared _).function?⟩,
        (hdeclared ⟨h.name, h.result, _⟩).frames, rfl, hsettled⟩

theorem definition_alike {s t : State} (ha : s.Alike t) (tokens : List Token) :
    (definition s tokens).2 = (definition t tokens).2 ∧
      (definition s tokens).1.Alike (definition t tokens).1 := by
  cases hh : functionHeader tokens with
  | error fault =>
    simp only [definition, hh]
    exact ⟨trivial, ha⟩
  | ok h =>
    cases hf : s.scope.function? h.name with
    | none => exact definition_new ha.toPeer hh hf
    | some f =>
      have hs : s.scope.isFunction h.name = true := by simp [Scope.isFunction, hf]
      have ht : t.scope.isFunction h.name = true := by rw [← ha.scope.isFunction]; exact hs
      simp only [definition, hh, hs, ht, ↓reduceIte]
      refine ⟨trivial, ⟨ha.blocks, ha.indent, ha.insideControl, ha.function?⟩, ha.frames, rfl, ?_⟩
      intro name hname
      cases hname
      rw [mem_setMember_self, mem_setMember_self]

/-- A return ends alike, and settles the function in both states or in neither. -/
theorem returnStatement_alike {s t : State} (ha : s.Alike t) (tokens : List Token) :
    (∃ fault, returnStatement s tokens = .error fault ∧ returnStatement t tokens = .error fault) ∨
      ∃ s' t' line, returnStatement s tokens = .ok (s', line) ∧
        returnStatement t tokens = .ok (t', line) ∧ s'.Alike t' := by
  unfold returnStatement
  rw [← ha.function, ← ha.insideControl]
  dsimp only
  cases hn : s.function with
  | none => exact .inl ⟨_, rfl, rfl⟩
  | some name =>
    simp only [← ha.function?, valueOrCall_alike ha.scope]
    cases s.scope.function? name with
    | none => exact .inl ⟨_, rfl, rfl⟩
    | some f =>
      dsimp only
      split
      · exact .inr ⟨s, t, _, rfl, rfl, ha⟩
      · exact .inl ⟨_, rfl, rfl⟩
      · exact .inl ⟨_, rfl, rfl⟩
      · cases valueOrCall t.scope .returned .caller _ _ _ with
        | error fault => exact .inl ⟨fault, rfl, rfl⟩
        | ok code =>
          refine .inr ⟨_, _, _, rfl, rfl, ⟨ha.blocks, ha.indent, rfl, ha.function?⟩,
            ha.frames, rfl, fun f hf => ?_⟩
          cases hf
          dsimp only
          cases s.insideControl with
          | true => exact ha.settled name hn
          | false =>
            simp only [Bool.false_eq_true, ↓reduceIte]
            rw [mem_setMember_self, mem_setMember_self]

/-- The same statement in two states ends alike. -/
theorem perform_alike {s t : State} (ha : s.Alike t) (kind : Kind) (tokens : List Token) :
    (perform s kind tokens = none ∧ perform t kind tokens = none) ∨
      ∃ o p, perform s kind tokens = some o ∧ perform t kind tokens = some p ∧
        o.result = p.result ∧ o.state.Alike p.state := by
  have line : ∀ r : Except Fault String, ∃ o p, some (Outcome.ofLine s r) = some o ∧
      some (Outcome.ofLine t r) = some p ∧ o.result = p.result ∧ o.state.Alike p.state := by
    rintro (fault | line)
    · exact ⟨_, _, rfl, rfl, rfl, ha⟩
    · exact ⟨_, _, rfl, rfl, rfl, ha⟩
  cases kind with
  | create =>
    right
    rcases declaration_alike ha.scope tokens with ⟨fault, hs, ht⟩ | ⟨name, type, line, hs, ht⟩
    · simp only [perform, hs, ht]
      exact ⟨_, _, rfl, rfl, rfl, ha⟩
    · have hd := ha.scope.declare name type
      simp only [perform, hs, ht]
      exact ⟨_, _, rfl, rfl, rfl, ⟨ha.blocks, ha.indent, ha.insideControl, hd.function?⟩,
        hd.frames, ha.function, ha.settled⟩
  | identifier =>
    right
    simp only [perform, assignment_alike ha.scope]
    exact line _
  | print =>
    right
    simp only [perform, printStatement_alike ha.scope]
    exact line _
  | call =>
    right
    simp only [perform, callStatement_alike ha.scope]
    exact line _
  | loop =>
    right
    simp only [perform, loop_alike ha.scope]
    exact ⟨_, _, rfl, rfl, rfl, ha⟩
  | check =>
    right
    simp only [perform, ifStatement_alike ha.scope]
    exact ⟨_, _, rfl, rfl, rfl, ha⟩
  | define =>
    right
    obtain ⟨hr, hs⟩ := definition_alike ha tokens
    exact ⟨_, _, rfl, rfl, hr, hs⟩
  | giveBack =>
    right
    rcases returnStatement_alike ha tokens with ⟨fault, hs, ht⟩ | ⟨s', t', line, hs, ht, ha'⟩
    · simp only [perform, hs, ht]
      exact ⟨_, _, rfl, rfl, rfl, ha⟩
    · simp only [perform, hs, ht]
      exact ⟨_, _, rfl, rfl, rfl, ha'⟩
  | _ => exact .inl ⟨rfl, rfl⟩

end Statement

/-! ## One line of a function -/

/-- A diagnostic that is told `offset` lines further down. -/
def Diagnostic.moved (offset : Int) (d : Diagnostic) : Diagnostic :=
  { d with line := d.line + offset }

namespace Step

/-- Steps that yield the same code, tell the same up to the number of the line, and lead to states
that are alike. -/
structure Alike (offset : Int) (a b : Step) : Prop where
  emitted : a.emitted = b.emitted
  diagnostics : Event.diagnostics b.events = (Event.diagnostics a.events).map (·.moved offset)
  state : a.state.Alike b.state

/-- Both translations read the same line, `offset` lines apart. -/
structure Abreast (offset : Int) (text : String) (s t : State) : Prop where
  left : s.lines[s.line]? = some text
  right : t.lines[t.line]? = some text
  apart : (t.line : Int) = s.line + offset

section Line

variable {offset : Int} {text : String} {s t : State}

theorem Abreast.lineNumber (hb : Abreast offset text s t) :
    (t.lineNumber : Int) = s.lineNumber + offset := by
  have := hb.apart
  simp only [State.lineNumber]
  omega

theorem Abreast.marked (hb : Abreast offset text s t) :
    Abreast offset text (marked s text) (marked t text) := by
  unfold Step.marked
  split
  · exact ⟨hb.left, hb.right, hb.apart⟩
  · exact hb

/-- The step of a line whose statement ends alike. -/
theorem perform_alike_of_performed (hb : Abreast offset text s t) (hi : s.indent = t.indent)
    {first : Token} {rest : List Token} (hl : Token.ofLine text = .ok (first :: rest))
    {o p : Outcome} (hs : Statement.perform s first.kind (first :: rest) = some o)
    (ht : Statement.perform t first.kind (first :: rest) = some p) (hr : o.result = p.result)
    (ha : o.state.Alike p.state) :
    Alike offset (perform s text).1 (perform t text).1 ∧
      (perform s text).2 = (perform t text).2 := by
  obtain ⟨s', r⟩ := o
  obtain ⟨t', r'⟩ := p
  have hr : r = r' := hr
  subst hr
  cases r with
  | error fault =>
    simp only [perform, hl, hs, ht, fault.diagnostic_eq hb.left, fault.diagnostic_eq hb.right]
    refine ⟨⟨rfl, ?_, ha⟩, trivial⟩
    simp [Diagnostic.moved, hb.lineNumber]
  | ok opening =>
    simp only [perform, hl, hs, ht]
    exact ⟨⟨by simp only [State.indented, hi], rfl, ha⟩, trivial⟩

/-- The step of a line in states that are alike. -/
theorem perform_alike (hb : Abreast offset text s t) (ha : s.Alike t) :
    Alike offset (perform s text).1 (perform t text).1 ∧
      (perform s text).2 = (perform t text).2 := by
  cases hl : Token.ofLine text with
  | error l =>
    simp only [perform, hl]
    refine ⟨⟨rfl, ?_, ha⟩, trivial⟩
    simp [Diagnostic.moved, hb.lineNumber]
  | ok tokens =>
    cases tokens with
    | nil =>
      simp only [perform, hl]
      exact ⟨⟨rfl, rfl, ha⟩, trivial⟩
    | cons first rest =>
      rcases Statement.perform_alike ha first.kind (first :: rest) with
        ⟨hs, ht⟩ | ⟨o, p, hs, ht, hr, ha'⟩
      · simp only [perform, hl, hs, ht]
        refine ⟨⟨rfl, ?_, ha⟩, trivial⟩
        simp [Diagnostic.moved, hb.lineNumber]
      · exact perform_alike_of_performed hb ha.indent hl hs ht hr ha'

theorem openBlock_alike (ha : s.Alike t) (vars : List Param) :
    (s.openBlock vars).Alike (t.openBlock vars) := by
  have hv := ha.scope.push.declareAll vars
  refine ⟨⟨?_, congrArg (· + 1) ha.indent, ha.insideControl, hv.function?⟩, hv.frames,
    ha.function, ha.settled⟩
  simp only [State.openBlock, List.length_cons, ha.blocks]

/-- A statement line opens its block in both translations or in neither. -/
theorem ofLine_alike_of_perform (h : text ≠ "\x7d")
    (hp : Alike offset (perform (marked s text) text).1 (perform (marked t text) text).1 ∧
      (perform (marked s text) text).2 = (perform (marked t text) text).2) :
    Alike offset (ofLine s text) (ofLine t text) := by
  rw [ofLine_statement h, ofLine_statement h]
  generalize perform (marked s text) text = r at hp ⊢
  generalize perform (marked t text) text = q at hp ⊢
  obtain ⟨ha, hv⟩ := hp
  dsimp only
  rw [hv]
  split
  · have ho := openBlock_alike ha.state q.2
    exact ⟨ha.emitted, ha.diagnostics, ⟨ho.blocks, ho.indent, ho.insideControl, ho.function?⟩,
      ho.frames, ho.function, ho.settled⟩
  · have ho := ha.state
    exact ⟨ha.emitted, ha.diagnostics, ⟨ho.blocks, ho.indent, ho.insideControl, ho.function?⟩,
      ho.frames, ho.function, ho.settled⟩

theorem missingReturn_alike (ha : s.Alike t)
    (hline : (t.lineNumber : Int) = s.lineNumber + offset) :
    Event.diagnostics (missingReturn t)
      = (Event.diagnostics (missingReturn s)).map (·.moved offset) := by
  unfold missingReturn
  rw [← ha.function]
  cases hn : s.function with
  | none => rfl
  | some name =>
    dsimp only
    rw [← ha.function?]
    cases s.scope.function? name with
    | none => rfl
    | some f =>
      dsimp only
      by_cases hd : f.result ≠ .void ∧ name ∉ s.settled
      · rw [if_pos hd, if_pos ⟨hd.1, fun hm => hd.2 ((ha.settled name hn).2 hm)⟩]
        simp [Diagnostic.moved, hline]
      · rw [if_neg hd, if_neg fun hd' => hd ⟨hd'.1, fun hm => hd'.2 ((ha.settled name hn).1 hm)⟩]
        rfl

theorem closing_alike (hb : Abreast offset "\x7d" s t) (ha : s.Alike t) (hopen : s.blocks ≠ []) :
    Alike offset (ofLine s "\x7d") (ofLine t "\x7d") := by
  obtain ⟨b, outer, hs⟩ := List.exists_cons_of_ne_nil hopen
  have hlen := ha.blocks
  rw [hs, List.length_cons] at hlen
  obtain ⟨c, outer', ht⟩ := List.exists_cons_of_length_eq_add_one hlen.symm
  rw [ht, List.length_cons, Nat.add_right_cancel_iff] at hlen
  rw [ofLine_closing_cons hs, ofLine_closing_cons ht]
  have hpop := ha.scope.pop
  have hinner : State.Alike
      { s with blocks := outer, indent := s.indent - 1, scope := s.scope.pop }
      { t with blocks := outer', indent := s.indent - 1, scope := t.scope.pop } :=
    ⟨⟨hlen, rfl, ha.insideControl, hpop.function?⟩, hpop.frames,
      ha.function, ha.settled⟩
  dsimp only
  rw [← ha.indent]
  refine ⟨?_, ?_, ⟨hlen, rfl, rfl, hpop.function?⟩, hpop.frames, ?_, ?_⟩
  · simp only [State.indented]
  · split
    · exact missingReturn_alike hinner hb.lineNumber
    · rfl
  · simp only [ha.function]
  · intro name
    dsimp only
    split
    · intro h
      cases h
    · exact ha.settled name

/-- Every line of a function keeps states alike. A closing brace must have a block to close, since
a stray one tells its line in words. -/
theorem ofLine_alike (hb : Abreast offset text s t) (ha : s.Alike t) (hopen : s.blocks ≠ []) :
    Alike offset (ofLine s text) (ofLine t text) := by
  by_cases h : text = "\x7d"
  · subst h
    exact closing_alike hb ha hopen
  · refine ofLine_alike_of_perform h (perform_alike hb.marked ?_)
    unfold marked
    split
    · exact ⟨⟨ha.blocks, ha.indent, rfl, ha.function?⟩, ha.frames, ha.function, ha.settled⟩
    · exact ha

end Line

/-! ## All lines of a function -/

theorem ofLines_alike {offset : Int} {xs restS restT : List String} {s t : State}
    (hs : s.lines.drop s.line = xs ++ restS) (ht : t.lines.drop t.line = xs ++ restT)
    (happart : (t.line : Int) = s.line + offset) (ha : s.Alike t)
    (hopen : ∀ m < xs.length, (xs.take m).foldl Nesting.behind s.blocks.length ≠ 0) :
    Alike offset (ofLines s xs) (ofLines t xs) := by
  induction xs generalizing s t with
  | nil => exact ⟨rfl, rfl, ha⟩
  | cons x xs ih =>
    have hb : Abreast offset x s t := by
      refine ⟨?_, ?_, happart⟩
      · rw [← List.head?_drop, hs]; rfl
      · rw [← List.head?_drop, ht]; rfl
    have hne : s.blocks ≠ [] := by
      intro he
      exact hopen 0 (Nat.zero_lt_succ _) (by rw [he]; rfl)
    have hx := ofLine_alike hb ha hne
    obtain ⟨hsl, hsn⟩ := ofLine_place s x
    obtain ⟨htl, htn⟩ := ofLine_place t x
    have htail := ih (s := (ofLine s x).state) (t := (ofLine t x).state)
      (by rw [hsl, hsn, ← List.drop_drop, hs]; rfl) (by rw [htl, htn, ← List.drop_drop, ht]; rfl)
      (by rw [hsn, htn]; omega) hx.state
      (by
        intro m hm
        rw [blocks_ofLine]
        exact hopen (m + 1) (Nat.succ_lt_succ hm))
    refine ⟨?_, ?_, htail.state⟩
    · simp only [ofLines, hx.emitted, htail.emitted]
    · simp only [ofLines, Event.diagnostics_append, hx.diagnostics, htail.diagnostics,
        List.map_append]

/-- The header of a new function makes peers alike. -/
theorem header_alike {offset : Int} {header : String} {s t : State}
    (hb : Abreast offset header s t) (hp : s.Peer t) {first : Token} {rest : List Token}
    (htokens : Token.ofLine header = .ok (first :: rest)) (hlead : first.kind = .define)
    {h : FunctionHeader} (hshape : functionHeader (first :: rest) = .ok h)
    (hnew : s.scope.function? h.name = none) :
    Alike offset (ofLine s header) (ofLine t header) := by
  have hne : header ≠ "\x7d" := by
    rintro rfl
    rw [Token.ofLine_closeBrace] at htokens
    cases htokens
    cases hlead
  have hm : (marked s header).Peer (marked t header) := by
    unfold marked
    split
    · exact ⟨hp.blocks, hp.indent, rfl, hp.function?⟩
    · exact hp
  obtain ⟨hr, ha⟩ := definition_new hm hshape (by rwa [marked_scope])
  refine ofLine_alike_of_perform hne
    (perform_alike_of_performed hb.marked hm.indent htokens (o := ⟨_, _⟩) (p := ⟨_, _⟩)
      ?_ ?_ hr ha)
  · rw [hlead]; rfl
  · rw [hlead]; rfl

end Step

/-- Nothing but the function table flows from earlier code into a function. Two translations stand
outside of all blocks, before the same lines and with the same function table. The first of the
lines is a header in order that names a function which is not in the table, and the nesting does not
return to zero before the last of them. Then these lines yield the same code, the same diagnostics
up to the numbering of lines, and the same function table. -/
theorem function_lines_alike {p q : List String} {i j : Nat} {header : String}
    {body restP restQ : List String} {first : Token} {tokens : List Token} {h : FunctionHeader}
    (hp : p.drop i = header :: body ++ restP) (hq : q.drop j = header :: body ++ restQ)
    (hfreeP : (Run.before p i).blocks = []) (hfreeQ : (Run.before q j).blocks = [])
    (htable : ∀ name,
      (Run.before p i).scope.function? name = (Run.before q j).scope.function? name)
    (htokens : Token.ofLine header = .ok (first :: tokens)) (hlead : first.kind = .define)
    (hshape : functionHeader (first :: tokens) = .ok h)
    (hnew : (Run.before p i).scope.function? h.name = none)
    (hnest : ∀ m, 0 < m → m < (header :: body).length → Nesting.before (header :: body) m ≠ 0) :
    let a := Step.ofLines (Run.before p i) (header :: body)
    let b := Step.ofLines (Run.before q j) (header :: body)
    a.emitted = b.emitted ∧
      Event.diagnostics b.events = (Event.diagnostics a.events).map (·.moved (j - i)) ∧
      ∀ name, a.state.scope.function? name = b.state.scope.function? name := by
  have lineOf : ∀ {r : List String} {k : Nat} {rest : List String},
      r.drop k = header :: body ++ rest → (Run.before r k).line = k := by
    intro r k rest hr
    refine Run.before_line (Nat.le_of_lt (Nat.lt_of_not_le fun hle => ?_))
    rw [List.drop_eq_nil_of_le hle] at hr
    cases hr
  have hlp := lineOf hp
  have hlq := lineOf hq
  have hcp := Run.before_counted p i
  have hcq := Run.before_counted q j
  have hpeer : (Run.before p i).Peer (Run.before q j) := by
    refine ⟨by rw [hfreeP, hfreeQ], ?_, ?_, htable⟩
    · rw [hcp.indent, hcq.indent, hfreeP, hfreeQ]
    · rw [hcp.rest hfreeP, hcq.rest hfreeQ]
  have hb : Step.Abreast ((j : Int) - i) header (Run.before p i) (Run.before q j) := by
    refine ⟨?_, ?_, by rw [hlp, hlq]; omega⟩
    · rw [Run.before_lines, hlp, ← List.head?_drop, hp]; rfl
    · rw [Run.before_lines, hlq, ← List.head?_drop, hq]; rfl
  have hhead := Step.header_alike hb hpeer htokens hlead hshape hnew
  obtain ⟨hsl, hsn⟩ := Step.ofLine_place (Run.before p i) header
  obtain ⟨htl, htn⟩ := Step.ofLine_place (Run.before q j) header
  rw [Run.before_lines] at hsl htl
  have hbody : Step.Alike ((j : Int) - i)
      (Step.ofLines (Step.ofLine (Run.before p i) header).state body)
      (Step.ofLines (Step.ofLine (Run.before q j) header).state body) := Step.ofLines_alike
    (by rw [hsl, hsn, hlp, ← List.drop_drop, hp]; rfl)
    (by rw [htl, htn, hlq, ← List.drop_drop, hq]; rfl)
    (by rw [hsn, htn, hlp, hlq]; omega) hhead.state
    (by
      intro m hm
      rw [Step.blocks_ofLine, hfreeP]
      exact hnest (m + 1) (Nat.succ_pos m) (Nat.succ_lt_succ hm))
  refine ⟨?_, ?_, hbody.state.function?⟩
  · simp only [Step.ofLines, hhead.emitted, hbody.emitted]
  · simp only [Step.ofLines, Event.diagnostics_append, hhead.diagnostics, hbody.diagnostics,
      List.map_append]

/-- A variable outside of all functions and lines that were refused are both forgotten. -/
theorem function_lines_alike_sample :
    let f := ["please define function integer f(integer a) \x7b", "b equals a", "\x7d"]
    let a := Step.ofLines (Run.before ("please create integer b" :: f) 1) f
    let b := Step.ofLines (Run.before ("\x7d" :: "nonsense" :: f) 2) f
    a.emitted = b.emitted ∧
      Event.diagnostics b.events = (Event.diagnostics a.events).map (·.moved 1) ∧
      ∀ name, a.state.scope.function? name = b.state.scope.function? name := by
  intro f
  let tokens : List Token := [⟨"please define function", .define, 1⟩, ⟨"integer", .typeName, 24⟩,
    ⟨"f", .identifier, 32⟩, ⟨"(", .openParen, 33⟩, ⟨"integer", .typeName, 34⟩,
    ⟨"a", .identifier, 42⟩, ⟨")", .closeParen, 43⟩, ⟨"\x7b", .openBrace, 45⟩]
  obtain ⟨hp, hq, hfreeP, hfreeQ, hl, h1, h2⟩ :
      (Run.before ("please create integer b" :: f) 1).scope.functions = [] ∧
      (Run.before ("\x7d" :: "nonsense" :: f) 2).scope.functions = [] ∧
      (Run.before ("please create integer b" :: f) 1).blocks = [] ∧
      (Run.before ("\x7d" :: "nonsense" :: f) 2).blocks = [] ∧
      (Token.ofLine "please define function integer f(integer a) \x7b").toOption = some tokens ∧
      Nesting.before f 1 ≠ 0 ∧ Nesting.before f 2 ≠ 0 := by
    decide +kernel
  have htokens := except_toOption_eq_some.1 hl
  refine function_lines_alike (p := "please create integer b" :: f) (q := "\x7d" :: "nonsense" :: f)
    (i := 1) (j := 2) rfl rfl hfreeP hfreeQ ?_ htokens rfl rfl ?_ ?_
  · intro name
    simp only [Scope.function?, hp, hq]
  · simp only [Scope.function?, hp, List.find?_nil]
  · intro m hm hlt
    obtain rfl | rfl : m = 1 ∨ m = 2 := by
      simp only [List.length_cons, List.length_nil] at hlt
      omega
    · exact h1
    · exact h2

end Courtesy
