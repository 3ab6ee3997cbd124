import Courtesy.Proofs.Statements

/-!
# Single lines and whole runs

What one line can do to a translation, and what follows for any number of lines.

* `Statement.Performed` lists the ways in which a statement can end; `Statement.perform_cases` says
  that there are no others.
* `Step.Reading` does the same for a line that is no closing brace.
* `Nesting.stackBehind` says which blocks are open from the tokens of a line alone, and
  `Step.stack_ofLine` that a translation opens and closes the same, whatever it accepts;
  `Nesting.depth` counts them.
* `State.Counted`: the depth is the number of open blocks, and outside of all blocks no control
  block is pending. It holds before every line of a run (`Run.before_counted`).
-/

namespace Courtesy

open Statement

/-! ## Diagnostics among events -/

namespace Event

@[simp] theorem diagnostics_nil : diagnostics [] = [] := rfl

@[simp] theorem diagnostics_fault (d : Diagnostic) (es : List Event) :
    diagnostics (.fault d :: es) = d :: diagnostics es := rfl

@[simp] theorem diagnostics_info (message : String) (es : List Event) :
    diagnostics (.info message :: es) = diagnostics es := rfl

@[simp] theorem diagnostics_infos (messages : List String) :
    diagnostics (messages.map .info) = [] := by
  induction messages with
  | nil => rfl
  | cons message messages ih => exact ih

@[simp] theorem diagnostics_append (es fs : List Event) :
    diagnostics (es ++ fs) = diagnostics es ++ diagnostics fs :=
  List.filterMap_append

end Event

/-! ## How a statement ends -/

/-- A closing brace alone in a line is no statement. -/
theorem Token.ofLine_closeBrace : Token.ofLine "\x7d" = .ok [⟨"\x7d", .closeBrace, 1⟩] := by rfl

namespace Statement

/-- The ways in which a statement that is led by a token of a kind can end. Only a definition
changes the state where it is refused. -/
inductive Performed (st : State) (tokens : List Token) : Kind → Outcome → Prop
  | defined : Performed st tokens .define ⟨(definition st tokens).1, (definition st tokens).2⟩
  | refused {kind : Kind} (fault : Fault) (h : kind ≠ .define) :
      Performed st tokens kind ⟨st, .error fault⟩
  | created {scope : Scope} {line : String} (h : declaration st.scope tokens = .ok (scope, line)) :
      Performed st tokens .create ⟨{ st with scope := scope }, .ok { code := [line] }⟩
  | assigned {line : String} (h : assignment st.scope tokens = .ok line) :
      Performed st tokens .identifier ⟨st, .ok { code := [line] }⟩
  | printed {line : String} (h : printStatement st.scope tokens = .ok line) :
      Performed st tokens .print ⟨st, .ok { code := [line] }⟩
  | called {line : String} (h : callStatement st.scope tokens = .ok line) :
      Performed st tokens .call ⟨st, .ok { code := [line] }⟩
  | returned {settled : List String} {line : String}
      (h : returnStatement st tokens = .ok ({ st with settled := settled }, line)) :
      Performed st tokens .giveBack ⟨{ st with settled := settled }, .ok { code := [line] }⟩
  | looped {opening : Opening} (h : loop st.scope tokens = .ok opening) :
      Performed st tokens .loop ⟨st, .ok opening⟩
  | checked {opening : Opening} (h : ifStatement st.scope tokens = .ok opening) :
      Performed st tokens .check ⟨st, .ok opening⟩

theorem perform_cases {st : State} {kind : Kind} {tokens : List Token} {o : Outcome}
    (h : perform st kind tokens = some o) : Performed st tokens kind o := by
  cases kind with
  | create =>
    simp only [perform, Option.some.injEq] at h
    subst h
    cases hd : declaration st.scope tokens with
    | error fault => exact .refused fault (by decide)
    | ok r => exact .created hd
  | identifier =>
    simp only [perform, Option.some.injEq] at h
    subst h
    cases ha : assignment st.scope tokens with
    | error fault => exact .refused fault (by decide)
    | ok line => exact .assigned ha
  | print =>
    simp only [perform, Option.some.injEq] at h
    subst h
    cases hp : printStatement st.scope tokens with
    | error fault => exact .refused fault (by decide)
    | ok line => exact .printed hp
  | loop =>
    simp only [perform, Option.some.injEq] at h
    subst h
    cases hl : loop st.scope tokens with
    | error fault => exact .refused fault (by decide)
    | ok opening => exact .looped hl
  | check =>
    simp only [perform, Option.some.injEq] at h
    subst h
    cases hc : ifStatement st.scope tokens with
    | error fault => exact .refused fault (by decide)
    | ok opening => exact .checked hc
  | define =>
    simp only [perform, Option.some.injEq] at h
    subst h
    exact .defined
  | giveBack =>
    simp only [perform, Option.some.injEq] at h
    subst h
    cases hr : returnStatement st tokens with
    | error fault => exact .refused fault (by decide)
    | ok r =>
      obtain ⟨st', line⟩ := r
      obtain ⟨⟨settled, rfl⟩, -⟩ := returnStatement_ok hr
      exact .returned hr
  | call =>
    simp only [perform, Option.some.injEq] at h
    subst h
    cases hc : callStatement st.scope tokens with
    | error fault => exact .refused fault (by decide)
    | ok line => exact .called hc
  | _ => cases h

theorem Performed.state_of_error {st st' : State} {tokens : List Token} {kind : Kind}
    {fault : Fault} (h : Performed st tokens kind ⟨st', .error fault⟩) (hk : kind ≠ .define) :
    st' = st := by
  generalize hout : (⟨st', .error fault⟩ : Outcome) = outcome at h
  cases h with
  | defined => exact absurd rfl hk
  | refused _ _ => cases hout; rfl
  | _ => cases hout

/-- The part of a state that tells where a translation stands. -/
structure State.SamePlace (s t : State) : Prop where
  lines : t.lines = s.lines
  line : t.line = s.line
  indent : t.indent = s.indent
  blocks : t.blocks = s.blocks
  insideControl : t.insideControl = s.insideControl

theorem State.SamePlace.refl (st : State) : st.SamePlace st := ⟨rfl, rfl, rfl, rfl, rfl⟩

theorem definition_place (st : State) (tokens : List Token) :
    st.SamePlace (definition st tokens).1 := by
  unfold definition
  split
  · exact .refl st
  · dsimp only
    split
    · exact ⟨rfl, rfl, rfl, rfl, rfl⟩
    · split
      · exact ⟨rfl, rfl, rfl, rfl, rfl⟩
      · split <;> exact ⟨rfl, rfl, rfl, rfl, rfl⟩

/-- No statement moves the translation: lines and blocks are counted elsewhere. -/
theorem Performed.place {st : State} {tokens : List Token} {kind : Kind} {o : Outcome}
    (h : Performed st tokens kind o) : st.SamePlace o.state := by
  cases h with
  | defined => exact definition_place st tokens
  | created _ => exact ⟨rfl, rfl, rfl, rfl, rfl⟩
  | returned _ => exact ⟨rfl, rfl, rfl, rfl, rfl⟩
  | _ => exact .refl st

end Statement

/-! ## What a line can do -/

namespace Step

/-- The ways in which a line that is no closing brace can be read: without a token, refused before
any statement is tried, refused by its statement, or accepted. The variables are those of the block
that the line opens. -/
inductive Reading (st : State) (text : String) : Step × List Param → Prop
  | blank (h : Token.ofLine text = .ok []) : Reading st text ({ state := st }, [])
  | unread (d : Diagnostic) (infos : List String)
      (h : ∀ first rest, Token.ofLine text = .ok (first :: rest) →
        Statement.perform st first.kind (first :: rest) = none) :
      Reading st text ({ state := st, events := .fault d :: infos.map .info }, [])
  | rejected {first : Token} {rest : List Token} {st' : State} {fault : Fault} (info : String)
      (h : Token.ofLine text = .ok (first :: rest))
      (hp : Performed st (first :: rest) first.kind ⟨st', .error fault⟩) :
      Reading st text (⟨st', [], [.fault (fault.diagnostic st), .info info]⟩, [])
  | accepted {first : Token} {rest : List Token} {st' : State} {opening : Opening} (info : String)
      (h : Token.ofLine text = .ok (first :: rest))
      (hp : Performed st (first :: rest) first.kind ⟨st', .ok opening⟩) :
      Reading st text (⟨st', st.indented opening.code, [.info info]⟩, opening.vars)

theorem perform_reading (st : State) (text : String) : Reading st text (perform st text) := by
  unfold perform
  split
  · rename_i l hl
    exact .unread _ [] (fun first rest h => by rw [hl] at h; cases h)
  · rename_i hl
    exact .blank hl
  · rename_i first rest hl
    dsimp only
    split
    · rename_i hn
      refine .unread _ [_] (fun first' rest' h => ?_)
      rw [hl] at h
      cases h
      exact hn
    · rename_i st' fault hp
      exact .rejected _ hl (perform_cases hp)
    · rename_i st' opening hp
      exact .accepted _ hl (perform_cases hp)

theorem Reading.place {st : State} {text : String} {r : Step × List Param}
    (h : Reading st text r) : st.SamePlace r.1.state := by
  cases h with
  | blank _ => exact .refl st
  | unread _ _ _ => exact .refl st
  | rejected _ _ hp => exact hp.place
  | accepted _ _ hp => exact hp.place

theorem opens_eq (tokens : List String) : opens tokens = decide ("\x7b" ∈ tokens) := by
  rw [opens, Bool.eq_iff_iff, List.contains_iff_mem, decide_eq_true_iff]

/-- The state in which the statement of a line is tried. -/
def marked (st : State) (text : String) : State :=
  if opens (tokenize text) && isControl (tokenize text) then { st with insideControl := true }
  else st

section

variable (st : State) (text : String)

@[simp] theorem marked_lines : (marked st text).lines = st.lines := by
  unfold marked
  split <;> rfl

@[simp] theorem marked_line : (marked st text).line = st.line := by
  unfold marked
  split <;> rfl

@[simp] theorem marked_indent : (marked st text).indent = st.indent := by
  unfold marked
  split <;> rfl

@[simp] theorem marked_blocks : (marked st text).blocks = st.blocks := by
  unfold marked
  split <;> rfl

@[simp] theorem marked_function : (marked st text).function = st.function := by
  unfold marked
  split <;> rfl

@[simp] theorem marked_scope : (marked st text).scope = st.scope := by
  unfold marked
  split <;> rfl

theorem marked_indented (code : List String) :
    (marked st text).indented code = st.indented code := by
  simp only [State.indented, marked_indent]

end

/-- A statement line is read in the marked state; then its block is opened, if it opens one. -/
theorem ofLine_statement {text : String} (h : text ≠ "\x7d") (st : State) :
    ofLine st text =
      let r := perform (marked st text) text
      let st' := if opens (tokenize text) then r.1.state.openBlock r.2 else r.1.state
      { r.1 with state := { st' with line := st'.line + 1 } } := by
  have hb : (text == "\x7d") = false := by simpa using h
  simp only [ofLine, hb, Bool.false_eq_true, ↓reduceIte, statement, marked]
  generalize perform _ text = r
  cases opens (tokenize text) <;> rfl

/-- The code of a statement of several tokens that is carried out. -/
theorem emitted_of_perform {st st' : State} {text : String} {first second : Token}
    {rest : List Token} {o : Opening} (hl : Token.ofLine text = .ok (first :: second :: rest))
    (h : Statement.perform (marked st text) first.kind (first :: second :: rest) =
      some ⟨st', .ok o⟩) : (ofLine st text).emitted = st.indented o.code := by
  have hne : text ≠ "\x7d" := by
    rintro rfl
    rw [Token.ofLine_closeBrace] at hl
    cases hl
  rw [ofLine_statement hne]
  simp only [perform, hl, h, marked_indented]

/-- A line is accepted when it leads to no diagnostic. -/
def Accepts (st : State) (text : String) : Prop := Event.diagnostics (ofLine st text).events = []

theorem accepts_iff {text : String} (h : text ≠ "\x7d") (st : State) :
    Accepts st text ↔ Event.diagnostics (perform (marked st text) text).1.events = [] := by
  rw [Accepts, ofLine_statement h]

/-- An accepted line is a statement that was carried out. -/
theorem Accepts.performed {st : State} {text : String} (hacc : Accepts st text)
    (h : text ≠ "\x7d") {first : Token} {rest : List Token}
    (hl : Token.ofLine text = .ok (first :: rest)) :
    ∃ st' o info, Performed (marked st text) (first :: rest) first.kind ⟨st', .ok o⟩ ∧
      perform (marked st text) text = (⟨st', st.indented o.code, [.info info]⟩, o.vars) := by
  rw [accepts_iff h] at hacc
  have hr := perform_reading (marked st text) text
  generalize perform (marked st text) text = r at hacc hr ⊢
  cases hr with
  | blank hb =>
    rw [hl] at hb
    cases hb
  | unread _ _ _ => cases hacc
  | rejected _ _ _ => cases hacc
  | accepted info hl' hp =>
    rw [hl] at hl'
    cases hl'
    rw [marked_indented]
    exact ⟨_, _, info, hp, rfl⟩

/-- What an accepted line emits is the code of the statement that was carried out. -/
theorem Accepts.emitted {st : State} {text : String} (hacc : Accepts st text)
    (h : text ≠ "\x7d") :
    (Token.ofLine text = .ok [] ∧ (ofLine st text).emitted = []) ∨
      ∃ first rest st' o, Token.ofLine text = .ok (first :: rest) ∧
        Performed (marked st text) (first :: rest) first.kind ⟨st', .ok o⟩ ∧
        (ofLine st text).emitted = st.indented o.code := by
  have hr := perform_reading (marked st text) text
  rw [accepts_iff h] at hacc
  rw [ofLine_statement h]
  generalize perform (marked st text) text = r at hacc hr ⊢
  cases hr with
  | unread _ _ _ => cases hacc
  | rejected _ _ _ => cases hacc
  | blank hl => exact .inl ⟨hl, rfl⟩
  | accepted _ hl hp => exact .inr ⟨_, _, _, _, hl, hp, marked_indented st text _⟩

/-- An accepted line with a token is a statement that was carried out, and emits its code. -/
theorem Accepts.carried {st : State} {text : String} (hacc : Accepts st text)
    (h : text ≠ "\x7d") {first : Token} {rest : List Token}
    (hl : Token.ofLine text = .ok (first :: rest)) :
    ∃ st' o, Performed (marked st text) (first :: rest) first.kind ⟨st', .ok o⟩ ∧
      (ofLine st text).emitted = st.indented o.code := by
  obtain ⟨st', o, _, hp, hperform⟩ := hacc.performed h hl
  refine ⟨st', o, hp, ?_⟩
  rw [ofLine_statement h, hperform]

theorem ofLine_closing_nil {st : State} (h : st.blocks = []) :
    (ofLine st "\x7d").state = { st with line := st.line + 1 } := by
  simp [ofLine, closing, h]

/-- A closing brace ends the innermost block, and the function when it was the last one. -/
theorem ofLine_closing_cons {st : State} {b : Nat} {outer : List Nat}
    (h : st.blocks = b :: outer) :
    ofLine st "\x7d" =
      let inner := { st with blocks := outer, indent := st.indent - 1, scope := st.scope.pop }
      ⟨{ inner with
          function := if inner.indent = 0 then none else st.function
          insideControl := inner.indent > 1
          line := st.line + 1 },
        inner.indented ["\x7d"],
        if inner.indent = 0 then missingReturn inner else []⟩ := by
  simp only [ofLine, beq_self_eq_true, ↓reduceIte, closing, h]
  by_cases hi : st.indent - 1 = 0 <;> simp [hi]

theorem emitted_closing (st : State) :
    (ofLine st "\x7d").emitted =
      if st.blocks = [] then [] else [Target.indent (st.indent - 1) ++ "\x7d"] := by
  cases hb : st.blocks with
  | nil => simp [ofLine, closing, hb]
  | cons b outer =>
    rw [ofLine_closing_cons hb, if_neg (List.cons_ne_nil b outer)]
    rfl

/-! ## Lines one after another -/

theorem ofLines_append (st : State) (xs ys : List String) :
    ofLines st (xs ++ ys) =
      let head := ofLines st xs
      let tail := ofLines head.state ys
      ⟨tail.state, head.emitted ++ tail.emitted, head.events ++ tail.events⟩ := by
  induction xs generalizing st with
  | nil => simp [ofLines]
  | cons x xs ih => simp [ofLines, ih]

theorem ofLine_place (st : State) (text : String) :
    (ofLine st text).state.lines = st.lines ∧ (ofLine st text).state.line = st.line + 1 := by
  by_cases h : text = "\x7d"
  · subst h
    cases hb : st.blocks with
    | nil => rw [ofLine_closing_nil hb]; exact ⟨rfl, rfl⟩
    | cons b outer => rw [ofLine_closing_cons hb]; exact ⟨rfl, rfl⟩
  · have hp := (perform_reading (marked st text) text).place
    rw [ofLine_statement h]
    generalize perform (marked st text) text = r at hp ⊢
    dsimp only
    split
    · exact ⟨hp.lines.trans (marked_lines st text),
        congrArg (· + 1) (hp.line.trans (marked_line st text))⟩
    · exact ⟨hp.lines.trans (marked_lines st text),
        congrArg (· + 1) (hp.line.trans (marked_line st text))⟩

theorem ofLines_place (st : State) (xs : List String) :
    (ofLines st xs).state.lines = st.lines ∧
      (ofLines st xs).state.line = st.line + xs.length := by
  induction xs generalizing st with
  | nil => exact ⟨rfl, rfl⟩
  | cons x xs ih =>
    obtain ⟨hl, hn⟩ := ofLine_place st x
    obtain ⟨ihl, ihn⟩ := ih (ofLine st x).state
    refine ⟨ihl.trans hl, ?_⟩
    rw [ofLines, ihn, hn, List.length_cons]
    omega

end Step

/-! ## Open blocks -/

namespace Nesting

/-- The number of open blocks behind a line, told from its tokens alone. -/
def behind (depth : Nat) (text : String) : Nat :=
  if text = "\x7d" then depth - 1
  else if Step.opens (tokenize text) then depth + 1
  else depth

/-- The stack behind the line with the given number: a closing brace takes the innermost line off,
and any other line with an opening brace among its tokens is put on. -/
def stackBehind (stack : List Nat) (text : String) (number : Nat) : List Nat :=
  if text = "\x7d" then stack.tail
  else if "\x7b" ∈ tokenize text then number :: stack
  else stack

theorem length_stackBehind (stack : List Nat) (text : String) (number : Nat) :
    (stackBehind stack text number).length = behind stack.length text := by
  unfold stackBehind behind
  rw [Step.opens_eq]
  by_cases hbrace : "\x7b" ∈ tokenize text
  · split <;> simp [hbrace]
  · split <;> simp [hbrace]

/-- The number of blocks that given lines leave open. -/
def depth (lines : List String) : Nat := lines.foldl behind 0

/-- The number of blocks that are open before the line with index `k`. -/
def before (program : List String) (k : Nat) : Nat := depth (program.take k)

theorem before_succ {program : List String} {k : Nat} {text : String}
    (h : program[k]? = some text) : before program (k + 1) = behind (before program k) text := by
  rw [before, List.take_add_one, h]
  simp [depth, before]

end Nesting

/-- The depth is the number of open blocks, and no control block is pending outside of all. -/
structure Statement.State.Counted (st : State) : Prop where
  indent : st.indent = st.blocks.length
  rest : st.blocks = [] → st.insideControl = false

namespace Step

/-- Blocks are opened and closed by the tokens of a line, whatever is accepted. -/
theorem stack_ofLine (st : State) (text : String) :
    (ofLine st text).state.blocks = Nesting.stackBehind st.blocks text st.lineNumber := by
  by_cases h : text = "\x7d"
  · subst h
    rw [Nesting.stackBehind, if_pos rfl]
    cases hb : st.blocks with
    | nil => rw [ofLine_closing_nil hb, hb]; rfl
    | cons b outer => rw [ofLine_closing_cons hb]; rfl
  · have hp := (perform_reading (marked st text) text).place
    have hblocks := hp.blocks.trans (marked_blocks st text)
    have hline := hp.line.trans (marked_line st text)
    rw [ofLine_statement h, Nesting.stackBehind, if_neg h, opens_eq]
    generalize perform (marked st text) text = r at hblocks hline ⊢
    dsimp only
    split <;> rename_i hopens
    · rw [if_pos (of_decide_eq_true hopens)]
      simp only [State.openBlock, State.lineNumber, hblocks, hline]
    · rw [if_neg fun hm => hopens (decide_eq_true hm), hblocks]

theorem blocks_ofLine (st : State) (text : String) :
    (ofLine st text).state.blocks.length = Nesting.behind st.blocks.length text := by
  rw [stack_ofLine, Nesting.length_stackBehind]

theorem blocks_ofLines (st : State) (xs : List String) :
    (ofLines st xs).state.blocks.length = xs.foldl Nesting.behind st.blocks.length := by
  induction xs generalizing st with
  | nil => rfl
  | cons x xs ih => rw [ofLines, ih, blocks_ofLine, List.foldl_cons]

theorem counted_ofLine {st : State} (hc : st.Counted) (text : String) :
    (ofLine st text).state.Counted := by
  by_cases h : text = "\x7d"
  · subst h
    cases hb : st.blocks with
    | nil =>
      rw [ofLine_closing_nil hb]
      exact ⟨hc.indent, hc.rest⟩
    | cons b outer =>
      have hi := hc.indent
      rw [hb, List.length_cons] at hi
      rw [ofLine_closing_cons hb]
      refine ⟨by simp [hi], fun ho => ?_⟩
      have ho : outer = [] := ho
      simp [hi, ho]
  · have hp := (perform_reading (marked st text) text).place
    rw [ofLine_statement h]
    generalize perform (marked st text) text = r at hp ⊢
    dsimp only
    split
    · refine ⟨?_, fun ho => by cases ho⟩
      simp only [State.openBlock, List.length_cons, hp.indent, hp.blocks, marked_indent,
        marked_blocks, hc.indent]
    · rename_i hopen
      have hm : marked st text = st := by simp [marked, hopen]
      rw [hm] at hp
      refine ⟨by simp only [hp.indent, hp.blocks, hc.indent], fun ho => ?_⟩
      exact hp.insideControl.trans (hc.rest (hp.blocks ▸ ho))

theorem counted_ofLines {st : State} (hc : st.Counted) (xs : List String) :
    (ofLines st xs).state.Counted := by
  induction xs generalizing st with
  | nil => exact hc
  | cons x xs ih => exact ih (counted_ofLine hc x)

end Step

/-! ## States before a line -/

theorem getElem?_of_drop {program : List String} {k : Nat} {x : String} {xs : List String}
    (h : program.drop k = x :: xs) : program[k]? = some x ∧ program.drop (k + 1) = xs := by
  refine ⟨?_, ?_⟩
  · rw [← List.head?_drop, h]
    rfl
  · rw [← List.drop_drop, h]
    rfl

namespace Run

/-- The state of a translation of a program before the line with index `k`. -/
def before (program : List String) (k : Nat) : State :=
  (Step.ofLines { lines := program } (program.take k)).state

theorem before_lines (program : List String) (k : Nat) : (before program k).lines = program :=
  (Step.ofLines_place _ _).1

theorem before_line {program : List String} {k : Nat} (h : k ≤ program.length) :
    (before program k).line = k := by
  have := (Step.ofLines_place { lines := program } (program.take k)).2
  rw [List.length_take, Nat.min_eq_left h] at this
  simpa [before] using this

theorem before_succ {program : List String} {k : Nat} {text : String}
    (h : program[k]? = some text) :
    before program (k + 1) = (Step.ofLine (before program k) text).state := by
  rw [before, List.take_add_one, h, Option.toList_some, Step.ofLines_append]
  rfl

theorem blocks_before (program : List String) (k : Nat) :
    (before program k).blocks.length = Nesting.before program k :=
  Step.blocks_ofLines _ _

theorem before_counted (program : List String) (k : Nat) : (before program k).Counted :=
  Step.counted_ofLines ⟨rfl, fun _ => rfl⟩ _

end Run

end Courtesy
