import Courtesy.Diagnostic.Location
import Courtesy.Statement.Function
import Courtesy.Statement.Simple
import Courtesy.Target.Program

/-!
# Translations

A program is read line by line. A line that is a closing brace closes the innermost block; any
other line is one statement, which either yields code or a diagnostic. A statement line that holds
an opening brace opens a block, whether the statement was accepted or not. After the last line two
things are asked of the whole: that no block is open and that there is an entry point.
-/

namespace Courtesy

namespace Statement

/-- What became of a statement: the state, and its code or its fault. -/
structure Outcome where
  state : State
  result : Except Fault Opening

namespace Outcome

/-- A statement that leaves the state alone. -/
def ofLine (st : State) : Except Fault String → Outcome
  | .error fault => ⟨st, .error fault⟩
  | .ok line => ⟨st, .ok { code := [line] }⟩

end Outcome

/-- Carries out the statement that the tokens form; none when their first kind starts no
statement. -/
def perform (st : State) (kind : Kind) (tokens : List Token) : Option Outcome :=
  match kind with
  | .create => some <| match declaration st.scope tokens with
    | .error fault => ⟨st, .error fault⟩
    | .ok (scope, line) => ⟨{ st with scope := scope }, .ok { code := [line] }⟩
  | .identifier => some (.ofLine st (assignment st.scope tokens))
  | .print => some (.ofLine st (printStatement st.scope tokens))
  | .loop => some ⟨st, loop st.scope tokens⟩
  | .check => some ⟨st, ifStatement st.scope tokens⟩
  | .define => let (st, result) := definition st tokens; some ⟨st, result⟩
  | .giveBack => some <| match returnStatement st tokens with
    | .error fault => ⟨st, .error fault⟩
    | .ok (st, line) => ⟨st, .ok { code := [line] }⟩
  | .call => some (.ofLine st (callStatement st.scope tokens))
  | _ => none

namespace State

/-- The 1-based number of the line that is read next. -/
def lineNumber (st : State) : Nat := st.line + 1

/-- Lines of code at the depth of the open blocks. -/
def indented (st : State) (code : List String) : List String :=
  code.map (Target.indent st.indent ++ ·)

/-- Opens a block at the line that is being read, its frame holding `vars`. -/
def openBlock (st : State) (vars : List Param) : State :=
  { st with
    indent := st.indent + 1
    blocks := st.lineNumber :: st.blocks
    scope := st.scope.push.declareAll vars }

end State

/-- The diagnostic of a faulty statement in the line that is being read. The token that is blamed is
looked for in that line and above it; a place further up is not told. -/
def Fault.diagnostic (fault : Fault) (st : State) : Diagnostic :=
  { category := fault.category
    message := fault.message
    line := st.lineNumber
    column := Location.columnAt st.lines fault.blame st.line }

end Statement

open Statement

/-- What one line led to: the state behind it, the code it yielded and what was told. -/
structure Step where
  state : State
  emitted : List String := []
  events : List Event := []
  deriving DecidableEq, Repr

namespace Step

/-- Whether a line opens a block: one of its tokens is an opening brace. -/
def opens (tokens : List String) : Bool := tokens.contains "\x7b"

/-- Whether a line is led by a phrase that starts a control block. -/
def isControl (tokens : List String) : Bool :=
  match tokens with
  | [] => false
  | first :: _ => classify first = .check || classify first = .loop

/-- The function that has just been closed lacks a return outside of its control blocks. -/
def missingReturn (st : State) : List Event :=
  match st.function with
  | none => []
  | some name =>
    match st.scope.function? name with
    | none => []
    | some f =>
      if f.result ≠ .void ∧ name ∉ st.settled then
        [.fault {
          category := .semantic
          message := s!"Function '{name}' must have a return statement outside of any control blocks to ensure a value is always returned."
          line := st.lineNumber }]
      else []

/-- Closes the innermost block. A function ends where the last block is closed. -/
def closing (st : State) (text : String) : Step :=
  match st.blocks with
  | [] =>
    { state := st
      events := [.fault {
        category := .structural
        message := s!"Unexpected closing curly brace '\x7d' at line {st.lineNumber}. No matching opening brace."
        line := st.lineNumber
        column := Location.column text "\x7d" }] }
  | _ :: outer =>
    let st := { st with
      blocks := outer, indent := st.indent - 1, scope := st.scope.pop }
    let emitted := st.indented ["\x7d"]
    let control := st.indent > 1
    if st.indent = 0 then
      ⟨{ st with function := none, insideControl := control }, emitted, missingReturn st⟩
    else ⟨{ st with insideControl := control }, emitted, []⟩

/-- Reads the tokens of a statement line. The variables are those of the block that it opens. -/
def perform (st : State) (text : String) : Step × List Param :=
  match Token.ofLine text with
  | .error l =>
    ({ state := st
       events := [.fault {
         category := .lexical, message := l.refusal, line := st.lineNumber, column := l.column }] },
     [])
  | .ok [] => ({ state := st }, [])
  | .ok (first :: rest) =>
    let read : Event := .info s!"Processed line {st.lineNumber}: {text}"
    match Statement.perform st first.kind (first :: rest) with
    | none =>
      ({ state := st
         events := [.fault {
           category := .structural, message := "Unknown command: " ++ first.text,
           line := st.lineNumber, column := first.column }, read] },
       [])
    | some ⟨st', .error fault⟩ =>
      (⟨st', [], [.fault (fault.diagnostic st), read]⟩, [])
    | some ⟨st', .ok opening⟩ => (⟨st', st.indented opening.code, [read]⟩, opening.vars)

/-- Reads a statement line. -/
def statement (st : State) (text : String) : Step :=
  let tokens := tokenize text
  let st := if opens tokens && isControl tokens then { st with insideControl := true } else st
  let (step, vars) := perform st text
  if opens tokens then { step with state := step.state.openBlock vars } else step

/-- Reads one line. -/
def ofLine (st : State) (text : String) : Step :=
  let step := if text == "\x7d" then closing st text else statement st text
  { step with state := { step.state with line := step.state.line + 1 } }

/-- Reads lines one after another. -/
def ofLines (st : State) : List String → Step
  | [] => { state := st }
  | text :: rest =>
    let head := ofLine st text
    let tail := ofLines head.state rest
    ⟨tail.state, head.emitted ++ tail.emitted, head.events ++ tail.events⟩

end Step

/-- Whether there is a void function `main` without parameters whose header was in order. -/
def Statement.State.hasEntryPoint (st : State) : Bool :=
  match st.scope.function? "main" with
  | none => false
  | some f => "main" ∉ st.malformed && f.result = .void && f.params.isEmpty

/-- What is told after the last line. -/
def closingEvents (st : State) : List Event :=
  (match st.blocks.getLast? with
    | none => []
    | some first => [.fault {
        category := .structural
        message := s!"Missing closing curly brace '\x7d'. Block starting at line {first} is not properly closed."
        line := first
        terminal := true }])
  ++ if st.hasEntryPoint then [] else [.fault {
      category := .entryPoint
      message := "Missing required entry point: 'please define function void main() \x7b'. A void main function must be defined."
      terminal := true }]

/-- A finished run over a program: its code and everything that was told. -/
structure Run where
  body : List String := []
  events : List Event := []
  deriving DecidableEq, Repr, Inhabited

namespace Run

/-- The run over given lines. -/
def ofLines (lines : List String) : Run :=
  let step := Step.ofLines { lines := lines } lines
  ⟨step.emitted, step.events ++ closingEvents step.state⟩

def diagnostics (r : Run) : List Diagnostic := Event.diagnostics r.events

def infos (r : Run) : List String := Event.infos r.events

/-- A run succeeds when nothing terminal was told. -/
def succeeded (r : Run) : Bool := r.diagnostics.all (!·.terminal)

/-- The program of a run. -/
def code (r : Run) (options : Target.Options) : String := Target.program r.body options

end Run

/-- The run over the lines of a source text, trimmed and the blank ones left out. -/
def translate (source : String) : Run := Run.ofLines (Text.solidLines (Text.lines source))

end Courtesy
