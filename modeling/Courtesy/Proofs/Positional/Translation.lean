import Courtesy.Proofs.Positional.Search
import Courtesy.Proofs.Positional.Statements
import Courtesy.Proofs.Steps

/-!
# Translations by position

A translation reads its lines by number, tells a statement by the token at the first position,
keeps the open blocks on a stack that it cuts by its length, and looks for the token that a
diagnostic blames. Main statement: on every source text the translation by position ends, and ends
as the translation does. So every position that is asked for exists, in the bytes of a line, in its
tokens, in the stacks and among the lines, and the scanner finds a lexeme wherever it looks for one.
-/

namespace Courtesy.Positional

open Courtesy.Statement

namespace Statement

/-- What became of a statement that leaves the state alone. -/
def ofLine (st : State) (line : Look Fault String) : Option (Option Outcome) := do
  let result ← line.run
  return some (.ofLine st result)

/-- Carries out the statement that the tokens form; none when their first kind starts no
statement. -/
def perform (st : State) (kind : Kind) (tokens : List Token) : Option (Option Outcome) :=
  match kind with
  | .create => do
    match ← (declaration st.scope tokens).run with
    | .error fault => return some ⟨st, .error fault⟩
    | .ok (scope, line) => return some ⟨{ st with scope := scope }, .ok { code := [line] }⟩
  | .identifier => ofLine st (assignment st.scope tokens)
  | .print => ofLine st (printStatement st.scope tokens)
  | .loop => do
    let result ← (loop st.scope tokens).run
    return some ⟨st, result⟩
  | .check => do
    let result ← (ifStatement st.scope tokens).run
    return some ⟨st, result⟩
  | .define => do
    let (st, result) ← definition st tokens
    return some ⟨st, result⟩
  | .giveBack => do
    match ← (returnStatement st tokens).run with
    | .error fault => return some ⟨st, .error fault⟩
    | .ok (st, line) => return some ⟨st, .ok { code := [line] }⟩
  | .call => ofLine st (callStatement st.scope tokens)
  | _ => return none

/-- The diagnostic of a faulty statement in the line that is being read. -/
def diagnostic (fault : Fault) (st : State) : Option Diagnostic := do
  let column ← columnAt st.lines fault.blame st.line
  return {
    category := fault.category
    message := fault.message
    line := st.lineNumber
    column := column }

/-- Opens a block at the line that is being read, its frame holding `vars`. -/
def openBlock (st : State) (vars : List Param) : Option State := do
  let scope ← vars.foldlM (fun s p => declare p.name p.type s) st.scope.push
  return { st with
    indent := st.indent + 1
    blocks := st.lineNumber :: st.blocks
    scope := scope }

end Statement

namespace Step

/-- The line that is being read, empty behind the last. -/
def currentText (st : State) : Option String :=
  if st.line < st.lines.length then at? st.lines st.line else some ""

/-- Closes the innermost block, which is on top of the stack of blocks. -/
def closing (st : State) : Option Step :=
  let stack := st.blocks.reverse
  if stack.length = 0 then do
    let text ← currentText st
    let column ← column text "\x7d"
    return {
      state := st
      events := [.fault {
        category := .structural
        message := s!"Unexpected closing curly brace '\x7d' at line {st.lineNumber}. No matching opening brace."
        line := st.lineNumber
        column := column }] }
  else do
    let outer ← upTo? stack (stack.length - 1)
    let scope ← pop st.scope
    let st := { st with blocks := outer.reverse, indent := st.indent - 1, scope := scope }
    let emitted := st.indented ["\x7d"]
    let control := st.indent > 1
    if st.indent = 0 then
      return ⟨{ st with function := none, insideControl := control }, emitted,
        Step.missingReturn st⟩
    else return ⟨{ st with insideControl := control }, emitted, []⟩

/-- Reads the tokens of a statement line. The variables are those of the block that it opens. -/
def perform (st : State) (text : String) : Option (Step × List Param) := do
  match ← (tokensOf text).run with
  | .error l =>
    return ({ state := st
              events := [.fault {
                category := .lexical, message := l.refusal, line := st.lineNumber,
                column := l.column }] },
      [])
  | .ok tokens =>
    if tokens.length > 0 then do
      let first ← at? tokens 0
      let read : Event := .info s!"Processed line {st.lineNumber}: {text}"
      match ← Statement.perform st first.kind tokens with
      | none =>
        return ({ state := st
                  events := [.fault {
                    category := .structural, message := "Unknown command: " ++ first.text,
                    line := st.lineNumber, column := first.column }, read] },
          [])
      | some ⟨st', .error fault⟩ => do
        let diagnostic ← Statement.diagnostic fault st
        return (⟨st', [], [.fault diagnostic, read]⟩, [])
      | some ⟨st', .ok opening⟩ =>
        return (⟨st', st.indented opening.code, [read]⟩, opening.vars)
    else return ({ state := st }, [])

/-- Whether a line that opens a block is led by a phrase that starts a control block. -/
def opensControl (tokens : List String) : Option Bool :=
  if Step.opens tokens then do
    let first ← at? tokens 0
    return classify first = .check || classify first = .loop
  else some false

/-- Reads a statement line. -/
def statement (st : State) (text : String) : Option Step := do
  let tokens ← tokenize text
  let control ← opensControl tokens
  let st := if control then { st with insideControl := true } else st
  let (step, vars) ← perform st text
  if Step.opens tokens then do
    let state ← Statement.openBlock step.state vars
    return { step with state := state }
  else return step

/-- Reads one line. -/
def ofLine (st : State) (text : String) : Option Step := do
  let step ← if text == "\x7d" then closing st else statement st text
  return { step with state := { step.state with line := step.state.line + 1 } }

/-- Reads the lines from the index `i` on. -/
def ofLines (lines : List String) (st : State) (i : Nat) : Option Step :=
  if i < lines.length then do
    let text ← at? lines i
    let head ← ofLine st text
    let tail ← ofLines lines head.state (i + 1)
    return ⟨tail.state, head.emitted ++ tail.emitted, head.events ++ tail.events⟩
  else return { state := st }
termination_by lines.length - i

end Step

/-- What is told of the blocks that are left open: the one at the bottom of the stack. -/
def unclosed (st : State) : Option (List Event) :=
  let stack := st.blocks.reverse
  if stack.length > 0 then do
    let first ← at? stack 0
    return [.fault {
      category := .structural
      message := s!"Missing closing curly brace '\x7d'. Block starting at line {first} is not properly closed."
      line := first
      terminal := true }]
  else some []

/-- What is told after the last line. -/
def closingEvents (st : State) : Option (List Event) := do
  let blocks ← unclosed st
  return blocks ++ if st.hasEntryPoint then [] else [.fault {
      category := .entryPoint
      message := "Missing required entry point: 'please define function void main() \x7b'. A void main function must be defined."
      terminal := true }]

/-- The run over the lines of a source text. -/
def translate (source : String) : Option Run := do
  let lines := Text.solidLines (Text.lines source)
  let step ← Step.ofLines lines { lines := lines } 0
  let events ← closingEvents step.state
  return ⟨step.emitted, step.events ++ events⟩

/-! ## No look fails -/

namespace Statement

theorem perform_eq (st : State) (lead : Token) (rest : List Token) (kind : Kind) :
    perform st kind (lead :: rest)
      = some (Courtesy.Statement.perform st kind (lead :: rest)) := by
  cases kind with
  | create =>
    simp only [perform, Courtesy.Statement.perform, declaration_eq, run_told]
    cases Courtesy.Statement.declaration st.scope (lead :: rest) <;> rfl
  | giveBack =>
    simp only [perform, Courtesy.Statement.perform, returnStatement_eq, run_told]
    cases Courtesy.Statement.returnStatement st (lead :: rest) <;> rfl
  | define => simp [perform, Courtesy.Statement.perform, definition_eq]
  | call => simp [perform, Courtesy.Statement.perform, ofLine, callStatement_eq]
  | _ => simp [perform, Courtesy.Statement.perform, ofLine]

theorem diagnostic_eq (fault : Fault) (st : State) :
    diagnostic fault st = some (fault.diagnostic st) := by
  rw [diagnostic, columnAt_eq]
  rfl

theorem openBlock_eq (st : State) (vars : List Param) :
    openBlock st vars = some (st.openBlock vars) := by
  have hvars : ∀ s : Scope, vars.foldlM (fun s p => declare p.name p.type s) s
      = some (s.declareAll vars) := by
    induction vars with
    | nil => exact fun _ => rfl
    | cons p ps ih =>
      intro s
      rw [List.foldlM_cons, declare_eq]
      exact ih _
  rw [openBlock, hvars]
  rfl

end Statement

namespace Step

theorem closing_eq {st : State} {text : String} (h : st.lines[st.line]? = some text) :
    closing st = some (Courtesy.Step.closing st text) := by
  have htext : currentText st = some text := by
    rw [currentText, if_pos (List.getElem?_eq_some_iff.mp h).1, at?_natCast, h]
  unfold closing Courtesy.Step.closing
  cases st.blocks with
  | nil => simp [htext]
  | cons block outer =>
    rw [List.reverse_cons]
    dsimp only
    rw [if_neg (by simp), upTo?_last, pop_eq]
    simp only [Option.bind_eq_bind, Option.bind_some, List.reverse_reverse]
    split <;> rfl

theorem perform_eq (st : State) (text : String) :
    perform st text = some (Courtesy.Step.perform st text) := by
  unfold perform Courtesy.Step.perform
  rw [tokensOf_eq, run_told]
  rcases Token.ofLine text with l | (_ | ⟨first, rest⟩)
  · rfl
  · rfl
  · simp only [Option.bind_eq_bind, Option.bind_some, List.length_cons, Nat.zero_lt_succ, if_true,
      gt_iff_lt, at?_ofNat, List.getElem?_cons_zero, Statement.perform_eq, Statement.diagnostic_eq]
    rcases Courtesy.Statement.perform st first.kind (first :: rest) with _ | ⟨st', fault | opening⟩
    · rfl
    · rfl
    · rfl

theorem opensControl_eq (tokens : List String) :
    opensControl tokens = some (Step.opens tokens && Step.isControl tokens) := by
  unfold opensControl
  cases tokens with
  | nil => rfl
  | cons first rest => cases hopens : Step.opens (first :: rest) <;> simp [Step.isControl]

theorem statement_eq (st : State) (text : String) :
    statement st text = some (Courtesy.Step.statement st text) := by
  unfold statement Courtesy.Step.statement
  rw [tokenize_eq]
  simp only [Option.bind_eq_bind, Option.bind_some, opensControl_eq, perform_eq,
    Statement.openBlock_eq]
  split <;> rfl

theorem ofLine_eq {st : State} {text : String} (h : st.lines[st.line]? = some text) :
    ofLine st text = some (Courtesy.Step.ofLine st text) := by
  unfold ofLine Courtesy.Step.ofLine
  rw [closing_eq h, statement_eq]
  split <;> rfl

theorem ofLines_eq {lines : List String} {st : State} {i : Nat} (hlines : st.lines = lines)
    (hline : st.line = i) :
    ofLines lines st i = some (Courtesy.Step.ofLines st (lines.drop i)) := by
  induction hleft : lines.length - i generalizing st i with
  | zero =>
    rw [ofLines, if_neg (by omega), List.drop_eq_nil_of_le (by omega)]
    rfl
  | succ left ih =>
    have hi : i < lines.length := by omega
    have htext : st.lines[st.line]? = some lines[i] := by
      rw [hlines, hline, List.getElem?_eq_getElem hi]
    obtain ⟨hlines', hline'⟩ := Courtesy.Step.ofLine_place st lines[i]
    rw [ofLines, if_pos hi, at?_eq_getElem hi, Option.bind_eq_bind, Option.bind_some,
      ofLine_eq htext, Option.bind_eq_bind, Option.bind_some,
      ih (hlines'.trans hlines) (hline'.trans (by rw [hline])) (by omega),
      List.drop_eq_getElem_cons hi]
    rfl

end Step

theorem closingEvents_eq (st : State) :
    closingEvents st = some (Courtesy.closingEvents st) := by
  unfold closingEvents unclosed Courtesy.closingEvents
  rcases List.eq_nil_or_concat st.blocks with hblocks | ⟨inside, first, hblocks⟩
  · rw [hblocks]
    rfl
  · rw [hblocks, List.concat_eq_append, List.reverse_append, List.getLast?_concat]
    rfl

/-- On every source text the translation by position ends as the translation does: no position
that it asks for is missing, and the scanner never lacks a lexeme. -/
theorem every_position_exists (source : String) :
    translate source = some (Courtesy.translate source) := by
  have hlines : ∀ lines, Step.ofLines lines { lines := lines } 0
      = some (Courtesy.Step.ofLines { lines := lines } lines) := fun lines =>
    Step.ofLines_eq rfl rfl
  rw [translate, hlines, Option.bind_eq_bind, Option.bind_some, closingEvents_eq]
  rfl

end Courtesy.Positional
