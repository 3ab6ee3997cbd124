import Mathlib.Data.List.Induction
import Courtesy.Diagnostic.Journal
import Courtesy.Proofs.Verdict
import Courtesy.Translator

/-!
# Translators that are used again

A `Machine` carries out what is asked of a translator step by step. It keeps its lines in storage
that it uses again, so that a new input is written over the lines that an earlier run has read; it
reads them one by one through their place in this storage, tells every event to its journal and to a
listener as it comes, and marks a run as failed when it tells something terminal.

Whatever is asked, a machine answers as a `Translator` does (`Machine.carries_call`), however much
spare room its storage takes. Main statement: what a run shows depends on the latest input since the
machine was reset and on nothing else that was asked before.
-/

namespace Courtesy

open Statement

/-! ## Storage -/

/-- Arrays of texts by their addresses. An array keeps the number of its cells. -/
structure Memory where
  arrays : List (List String) := [[]]

/-- The first cells of an array. -/
structure Slice where
  address : Nat := 0
  size : Nat := 0

namespace Memory

def array (m : Memory) (address : Nat) : List String := m.arrays[address]?.getD []

/-- The texts in the cells of a slice. -/
def read (m : Memory) (s : Slice) : List String := (m.array s.address).take s.size

/-- A slice has all its cells. -/
def Fits (m : Memory) (s : Slice) : Prop := s.size ≤ (m.array s.address).length

variable (spare : Nat → Nat) {m : Memory} {s : Slice}

/-- Puts a text behind a slice: into the next cell of its array, whatever is in there, or, if the
array has no such cell, into a new array with spare cells. -/
def append (m : Memory) (s : Slice) (text : String) : Memory × Slice :=
  if s.size < (m.array s.address).length then
    (⟨m.arrays.modify s.address (·.set s.size text)⟩, { s with size := s.size + 1 })
  else
    (⟨m.arrays ++ [m.read s ++ text :: List.replicate (spare s.size) ""]⟩,
      ⟨m.arrays.length, s.size + 1⟩)

/-- Puts a line behind a slice unless it is blank. -/
def put (place : Memory × Slice) (line : String) : Memory × Slice :=
  if Text.trim line = "" then place else place.1.append spare place.2 (Text.trim line)

/-- Puts the lines of an input into the cells of a slice, from the first cell on. -/
def store (m : Memory) (s : Slice) (input : List String) : Memory × Slice :=
  input.foldl (put spare) (m, { s with size := 0 })

theorem length_read (h : m.Fits s) : (m.read s).length = s.size := by
  rw [read, List.length_take, Nat.min_eq_left h]

theorem append_spec (h : m.Fits s) (text : String) :
    (m.append spare s text).1.Fits (m.append spare s text).2 ∧
      (m.append spare s text).1.read (m.append spare s text).2 = m.read s ++ [text] := by
  unfold append
  split
  · rename_i hroom
    obtain ⟨cells, hcells⟩ : ∃ cells, m.arrays[s.address]? = some cells := by
      cases hget : m.arrays[s.address]? with
      | some cells => exact ⟨cells, rfl⟩
      | none =>
        rw [array, hget] at hroom
        cases hroom
    have hold : m.array s.address = cells := by rw [array, hcells]; rfl
    have hnew : (Memory.mk (m.arrays.modify s.address (·.set s.size text))).array s.address =
        cells.set s.size text := by
      rw [array, List.getElem?_modify_eq, hcells]
      rfl
    rw [hold] at hroom
    refine ⟨?_, ?_⟩
    · rw [Fits, hnew, List.length_set]
      exact hroom
    · rw [read, hnew, read, hold, List.take_add_one, List.take_set_of_le (Nat.le_refl _),
        List.getElem?_set_self hroom]
      rfl
  · have hnew :
        (Memory.mk (m.arrays ++ [m.read s ++ text :: List.replicate (spare s.size) ""])).array
          m.arrays.length = m.read s ++ text :: List.replicate (spare s.size) "" := by
      rw [array, List.getElem?_concat_length]
      rfl
    have hlength := length_read h
    refine ⟨?_, ?_⟩
    · rw [Fits, hnew, List.length_append, List.length_cons, hlength]
      exact Nat.add_le_add_left (Nat.le_add_left 1 _) s.size
    · rw [read, hnew, ← hlength, List.take_length_add_append]
      rfl

theorem foldl_put_spec {place : Memory × Slice} (h : place.1.Fits place.2) (input : List String) :
    (input.foldl (put spare) place).1.Fits (input.foldl (put spare) place).2 ∧
      (input.foldl (put spare) place).1.read (input.foldl (put spare) place).2 =
        place.1.read place.2 ++ Text.solidLines input := by
  induction input generalizing place with
  | nil => exact ⟨h, (List.append_nil _).symm⟩
  | cons line input ih =>
    rw [List.foldl_cons]
    by_cases hblank : Text.trim line = ""
    · have hsolid : Text.solidLines (line :: input) = Text.solidLines input := by
        rw [Text.solidLines, List.map_cons, List.filter_cons_of_neg (by simp [hblank])]
        rfl
      rw [put, if_pos hblank, hsolid]
      exact ih h
    · have hsolid :
          Text.solidLines (line :: input) = [Text.trim line] ++ Text.solidLines input := by
        rw [Text.solidLines, List.map_cons, List.filter_cons_of_pos (by simp [hblank])]
        rfl
      obtain ⟨hfits, hread⟩ := append_spec spare h (Text.trim line)
      rw [put, if_neg hblank, hsolid, ← List.append_assoc, ← hread]
      exact ih hfits

/-- A slice that was stored holds the lines of its input, and nothing of what was there before. -/
theorem store_spec (m : Memory) (s : Slice) (input : List String) :
    (m.store spare s input).1.Fits (m.store spare s input).2 ∧
      (m.store spare s input).1.read (m.store spare s input).2 = Text.solidLines input :=
  @foldl_put_spec spare (m, { s with size := 0 }) (Nat.zero_le _) input

-- The cells of an earlier input are written over; its slice then reads lines of both.
example :
    let first := store (fun _ => 0) {} {} ["a", "b"]
    let second := store (fun _ => 0) first.1 first.2 [" c", ""]
    second.1.read first.2 = ["c", "b"] ∧ second.1.read second.2 = ["c"] := by
  decide +kernel

end Memory

/-! ## Machines -/

/-- A translator at work: where its lines are, where the lines of its last run were, the state in
which this run ended with its code and its diagnostics, whether it failed, and all that the listener
has heard from the beginning. -/
structure Machine where
  options : Target.Options := {}
  memory : Memory := {}
  lines : Slice := {}
  view : Slice := {}
  st : State := {}
  out : List String := []
  journal : Journal := {}
  failed : Bool := false
  heard : List Event := []

namespace Machine

/-- Tells an event to the journal and to the listener. -/
def tell (x : Machine) (e : Event) : Machine :=
  { x with journal := x.journal.record e, heard := x.heard ++ [e] }

/-- Tells an event that ends in failure. -/
def fail (x : Machine) (e : Event) : Machine := { x.tell e with failed := true }

/-- Reads a line. The state sees the lines of the program through their place in the storage. -/
def readLine (x : Machine) (text : String) : Machine :=
  let step := Step.ofLine { x.st with lines := x.memory.read x.view } text
  step.events.foldl tell { x with st := step.state, out := x.out ++ step.emitted }

/-- A machine with what a step led to. -/
def advance (x : Machine) (step : Step) : Machine :=
  { x with
    st := step.state
    out := x.out ++ step.emitted
    journal := step.events.foldl Journal.record x.journal
    heard := x.heard ++ step.events }

theorem foldl_tell (x : Machine) (es : List Event) :
    es.foldl tell x =
      { x with journal := es.foldl Journal.record x.journal, heard := x.heard ++ es } := by
  induction es generalizing x with
  | nil => simp
  | cons e es ih =>
    rw [List.foldl_cons, ih]
    simp [tell]

theorem readLine_eq (x : Machine) (text : String) :
    x.readLine text =
      x.advance (Step.ofLine { x.st with lines := x.memory.read x.view } text) :=
  foldl_tell _ _

/-- Reads the lines from the one that comes next to the last. -/
def readLines (x : Machine) : Machine :=
  match _h : (x.memory.read x.view)[x.st.line]? with
  | some text => (x.readLine text).readLines
  | none => x
termination_by x.view.size - x.st.line
decreasing_by
  have hline : (x.readLine text).st.line = x.st.line + 1 := by
    rw [readLine_eq]
    exact (Step.ofLine_place _ _).2
  have hview : (x.readLine text).view = x.view := by
    rw [readLine_eq]
    rfl
  obtain ⟨hlt, -⟩ := List.getElem?_eq_some_iff.1 _h
  rw [Memory.read, List.length_take] at hlt
  rw [hline, hview]
  omega

/-- A machine in front of its first line, with all given up that its last run has left. -/
def ready (x : Machine) : Machine :=
  { x with
    view := x.lines
    st := { lines := x.memory.read x.lines }
    out := []
    journal := {}
    failed := false }

/-- Runs over the lines. The answer is whether the run went through. -/
def process (x : Machine) : Machine × Bool :=
  let read := x.ready.readLines
  let ended := (closingEvents read.st).foldl fail read
  (ended, !ended.failed)

/-- Takes the solid lines of an input, in the storage of the lines it had. -/
def setInput (spare : Nat → Nat) (x : Machine) (input : List String) : Machine :=
  let place := x.memory.store spare x.lines input
  { x with memory := place.1, lines := place.2 }

/-- Forgets the lines and the last run. -/
def reset (x : Machine) : Machine :=
  { options := x.options, memory := x.memory, heard := x.heard }

/-! ## Runs of a machine -/

theorem advance_advance (x : Machine) (a b : Step) :
    (x.advance a).advance b =
      x.advance ⟨b.state, a.emitted ++ b.emitted, a.events ++ b.events⟩ := by
  simp [advance]

/-- Lines that are read one by one through the storage lead to what they lead to as a whole. -/
theorem readLines_eq {x : Machine} {program rest : List String}
    (hview : x.memory.read x.view = program) (hlines : x.st.lines = program)
    (hrest : program.drop x.st.line = rest) : x.readLines = x.advance (Step.ofLines x.st rest) := by
  induction rest generalizing x with
  | nil =>
    have hend : (x.memory.read x.view)[x.st.line]? = none := by
      rw [hview, ← List.head?_drop, hrest]
      rfl
    rw [readLines]
    split
    · rename_i text htext
      rw [hend] at htext
      cases htext
    · simp [advance, Step.ofLines]
  | cons text rest ih =>
    obtain ⟨htext, hdrop⟩ := getElem?_of_drop hrest
    rw [← hview] at htext
    obtain ⟨hplace, hline⟩ := Step.ofLine_place x.st text
    have hstate : { x.st with lines := x.memory.read x.view } = x.st := by
      rw [hview, ← hlines]
    have hnext := ih (x := x.advance (Step.ofLine x.st text)) hview (hplace.trans hlines)
      (by rw [← hdrop]; exact congrArg (program.drop ·) hline)
    rw [readLines]
    split
    · rename_i text' htext'
      rw [htext] at htext'
      cases htext'
      rw [readLine_eq, hstate, hnext, advance_advance]
      rfl
    · rename_i hnone
      rw [htext] at hnone
      cases hnone

theorem foldl_fail (x : Machine) (es : List Event) :
    es.foldl fail x = { es.foldl tell x with failed := x.failed || !es.isEmpty } := by
  induction es generalizing x with
  | nil => simp
  | cons e es ih =>
    rw [List.foldl_cons, ih, List.foldl_cons, fail, foldl_tell, foldl_tell]
    simp

end Machine

theorem isEmpty_closingEvents (st : State) :
    (closingEvents st).isEmpty = true ↔ st.blocks = [] ∧ st.hasEntryPoint = true := by
  unfold closingEvents
  cases hb : st.blocks with
  | nil => cases st.hasEntryPoint <;> simp
  | cons b outer => simp [List.getLast?_cons]

theorem Journal.diagnostics_foldl_record (j : Journal) (es : List Event) :
    (es.foldl record j).diagnostics = j.diagnostics ++ Event.diagnostics es := by
  induction es generalizing j with
  | nil => simp
  | cons e es ih =>
    rw [List.foldl_cons, ih]
    cases e with
    | fault d => simp [record]
    | info message => rfl

namespace Machine

/-- What a run leaves behind: its code, its diagnostics, whether it failed, and what the listener
has heard. -/
theorem process_eq (x : Machine) :
    let run := Run.ofLines (x.memory.read x.lines)
    x.process.1.options = x.options ∧ x.process.1.memory = x.memory ∧ x.process.1.lines = x.lines ∧
      x.process.1.out = run.body ∧ x.process.1.journal.diagnostics = run.diagnostics ∧
      x.process.1.heard = x.heard ++ run.events ∧ x.process.2 = run.succeeded := by
  intro run
  have hread : x.ready.readLines =
      x.ready.advance (Step.ofLines { lines := x.memory.read x.lines } (x.memory.read x.lines)) :=
    readLines_eq rfl rfl rfl
  have hsucceeded : (closingEvents (Step.ofLines { lines := x.memory.read x.lines }
      (x.memory.read x.lines)).state).isEmpty = run.succeeded := by
    rw [Bool.eq_iff_iff, isEmpty_closingEvents, Run.succeeded_ofLines, Run.before, List.take_length]
  rw [process, hread]
  dsimp only
  rw [foldl_fail, foldl_tell]
  refine ⟨rfl, rfl, rfl, rfl, ?_, ?_, ?_⟩
  · dsimp only
    rw [Journal.diagnostics_foldl_record, advance, Journal.diagnostics_foldl_record]
    exact (Event.diagnostics_append _ _).symm
  · exact List.append_assoc _ _ _
  · dsimp only [advance, ready]
    rw [Bool.false_or, Bool.not_not]
    exact hsucceeded

end Machine

/-! ## What is asked -/

/-- What can be asked of a translator. -/
inductive Call where
  | setInput (input : List String)
  | process
  | reset
  | lines
  | body
  | code
  | diagnostics
  deriving DecidableEq

namespace Call

/-- The input that a call brings. -/
def input? : Call → Option (List String)
  | setInput input => some input
  | _ => none

/-- The latest input since the latest reset. -/
def latest? (calls : List Call) : Option (List String) :=
  (calls.reverse.takeWhile (· ≠ .reset)).findSome? input?

theorem latest?_concat (calls : List Call) (call : Call) :
    latest? (calls ++ [call]) =
      if call = .reset then none else call.input?.or (latest? calls) := by
  unfold latest?
  rw [List.reverse_concat, List.takeWhile_cons]
  by_cases hreset : call = .reset
  · simp [hreset]
  · rw [if_pos (decide_eq_true hreset), if_neg hreset, List.findSome?_cons]
    cases call.input? <;> rfl

end Call

/-- What a call is answered. -/
inductive Answer where
  | done
  | flag (b : Bool)
  | texts (ts : List String)
  | text (t : String)
  | told (ds : List Diagnostic)
  deriving DecidableEq

/-- A translator behind a call, and its answer. -/
def Translator.call (t : Translator) : Call → Translator × Answer
  | .setInput input => (t.setInput input, .flag (t.setInput input).hasInput)
  | .process => (t.process, .flag t.process.last.succeeded)
  | .reset => (t.reset, .done)
  | .lines => (t, .texts t.lines)
  | .body => (t, .texts t.last.body)
  | .code => (t, .text t.code)
  | .diagnostics => (t, .told t.last.diagnostics)

namespace Machine

variable (spare : Nat → Nat)

/-- A machine behind a call, and its answer. -/
def call (x : Machine) : Call → Machine × Answer
  | .setInput input => (x.setInput spare input, .flag (0 < (x.setInput spare input).lines.size))
  | .process => (x.process.1, .flag x.process.2)
  | .reset => (x.reset, .done)
  | .lines => (x, .texts (x.memory.read x.lines))
  | .body => (x, .texts x.out)
  | .code => (x, .text (Target.program x.out x.options))
  | .diagnostics => (x, .told x.journal.diagnostics)

/-- A machine carries a translator: it holds the same lines, and its last run left the same. -/
structure Carries (x : Machine) (t : Translator) : Prop where
  options : x.options = t.options
  fits : x.memory.Fits x.lines
  lines : x.memory.read x.lines = t.lines
  body : x.out = t.last.body
  diagnostics : x.journal.diagnostics = t.last.diagnostics

variable {x : Machine} {t : Translator}

theorem Carries.setInput (h : x.Carries t) (input : List String) :
    (x.setInput spare input).Carries (t.setInput input) :=
  ⟨h.options, (Memory.store_spec spare x.memory x.lines input).1,
    (Memory.store_spec spare x.memory x.lines input).2, h.body, h.diagnostics⟩

theorem Carries.process (h : x.Carries t) : x.process.1.Carries t.process := by
  obtain ⟨hoptions, hmemory, hlines, hout, hdiagnostics, -, -⟩ := process_eq x
  refine ⟨hoptions.trans h.options, ?_, ?_, ?_, ?_⟩
  · rw [hmemory, hlines]
    exact h.fits
  · rw [hmemory, hlines]
    exact h.lines
  · rw [hout, h.lines]
    rfl
  · rw [hdiagnostics, h.lines]
    rfl

theorem Carries.reset (h : x.Carries t) : x.reset.Carries t.reset :=
  ⟨h.options, Nat.zero_le _, List.take_zero, rfl, rfl⟩

/-- A machine that carries a translator answers every call as the translator does, and goes on
carrying it. -/
theorem carries_call (h : x.Carries t) (c : Call) :
    (x.call spare c).1.Carries (t.call c).1 ∧ (x.call spare c).2 = (t.call c).2 := by
  cases c with
  | setInput input =>
    have hnext := h.setInput spare input
    refine ⟨hnext, ?_⟩
    have hsize := Memory.length_read hnext.fits
    rw [hnext.lines] at hsize
    show Answer.flag _ = Answer.flag _
    rw [← hsize, Translator.hasInput]
    cases (t.setInput input).lines <;> simp
  | process =>
    refine ⟨h.process, ?_⟩
    show Answer.flag _ = Answer.flag _
    rw [(process_eq x).2.2.2.2.2.2, h.lines]
    rfl
  | reset => exact ⟨h.reset, rfl⟩
  | lines => exact ⟨h, congrArg Answer.texts h.lines⟩
  | body => exact ⟨h, congrArg Answer.texts h.body⟩
  | code =>
    refine ⟨h, ?_⟩
    show Answer.text _ = Answer.text _
    rw [h.body, h.options]
    rfl
  | diagnostics => exact ⟨h, congrArg Answer.told h.diagnostics⟩

end Machine

/-! ## Calls one after another -/

namespace Translator

/-- A translator behind calls. -/
def after (t : Translator) (calls : List Call) : Translator :=
  calls.foldl (fun t c => (t.call c).1) t

/-- What calls are answered, in order. -/
def answers : Translator → List Call → List Answer
  | _, [] => []
  | t, c :: calls => (t.call c).2 :: answers (t.call c).1 calls

theorem options_call (t : Translator) (c : Call) : (t.call c).1.options = t.options := by
  cases c <;> rfl

theorem lines_call (t : Translator) (c : Call) :
    (t.call c).1.lines =
      if c = .reset then [] else (c.input?.map Text.solidLines).getD t.lines := by
  cases c <;> rfl

/-- Which lines a translator holds is decided by the latest input since the latest reset. -/
theorem after_eq (options : Target.Options) (calls : List Call) :
    (({ options := options } : Translator).after calls).options = options ∧
      (({ options := options } : Translator).after calls).lines =
        Text.solidLines ((Call.latest? calls).getD []) := by
  induction calls using List.reverseRecOn with
  | nil => exact ⟨rfl, rfl⟩
  | append_singleton calls c ih =>
    rw [after, List.foldl_append, List.foldl_cons, List.foldl_nil, options_call, lines_call,
      Call.latest?_concat]
    refine ⟨ih.1, ?_⟩
    by_cases hreset : c = .reset
    · rw [if_pos hreset, if_pos hreset]
      rfl
    · rw [if_neg hreset, if_neg hreset]
      cases c.input? with
      | none => exact ih.2
      | some input => rfl

end Translator

/-- What a run shows: whether it went through, its code without and with the program around it, its
diagnostics, and what a listener hears meanwhile. -/
structure Shown where
  ok : Bool
  body : List String
  code : String
  diagnostics : List Diagnostic
  told : List Event
  deriving DecidableEq

/-- What the next run of a translator shows. -/
def Translator.shown (t : Translator) : Shown where
  ok := t.process.last.succeeded
  body := t.process.last.body
  code := t.process.code
  diagnostics := t.process.last.diagnostics
  told := t.process.last.events

/-- A run looks at the options and the lines alone. -/
theorem Translator.shown_congr {t u : Translator} (hoptions : t.options = u.options)
    (hlines : t.lines = u.lines) : t.shown = u.shown := by
  have hlast : t.process.last = u.process.last := congrArg Run.ofLines hlines
  have hcode : t.process.code = u.process.code := by
    rw [code, code, hlast]
    exact congrArg (Run.code _) hoptions
  rw [shown, shown, hlast, hcode]

namespace Machine

variable (spare : Nat → Nat) {x : Machine} {t : Translator}

/-- A machine behind calls. -/
def after (x : Machine) (calls : List Call) : Machine :=
  calls.foldl (fun x c => (x.call spare c).1) x

/-- What calls are answered, in order. -/
def answers : Machine → List Call → List Answer
  | _, [] => []
  | x, c :: calls => (x.call spare c).2 :: answers (x.call spare c).1 calls

/-- What the next run of a machine shows. -/
def shown (x : Machine) : Shown where
  ok := x.process.2
  body := x.process.1.out
  code := Target.program x.process.1.out x.process.1.options
  diagnostics := x.process.1.journal.diagnostics
  told := x.process.1.heard.drop x.heard.length

theorem carries_new (options : Target.Options) :
    ({ options := options } : Machine).Carries { options := options } :=
  ⟨rfl, Nat.zero_le _, List.take_zero, rfl, rfl⟩

theorem Carries.after (h : x.Carries t) (calls : List Call) :
    (x.after spare calls).Carries (t.after calls) ∧ x.answers spare calls = t.answers calls := by
  induction calls generalizing x t with
  | nil => exact ⟨h, rfl⟩
  | cons c calls ih =>
    obtain ⟨hnext, hanswer⟩ := carries_call spare h c
    obtain ⟨hafter, hanswers⟩ := ih hnext
    exact ⟨hafter, by rw [answers, Translator.answers, hanswer, hanswers]⟩

theorem Carries.shown (h : x.Carries t) : x.shown = t.shown := by
  obtain ⟨hoptions, -, -, hout, hdiagnostics, hheard, hok⟩ := process_eq x
  rw [Machine.shown, hoptions, hout, hdiagnostics, hheard, hok, List.drop_left, h.options, h.lines]
  rfl

end Machine

/-- A machine that is used again behaves like a new one. Whatever it was asked before, its next run
shows what the run of a new machine shows that is given the latest input since the latest reset, or
no line if there was none; and this is what the runs of translators show. What the listener hears
during the run are the diagnostics of the run in their order, between the progress messages, and the
run goes through exactly if none of them is terminal. All calls are answered as a translator
answers them. -/
theorem reused_like_new (spare spare' : Nat → Nat) (options : Target.Options) (calls : List Call) :
    let x := ({ options := options } : Machine).after spare calls
    let t := ({ options := options } : Translator).after calls
    let input := (Call.latest? calls).getD []
    x.shown = (({ options := options } : Machine).setInput spare' input).shown ∧
    x.shown = t.shown ∧ t.shown = (({ options := options } : Translator).setInput input).shown ∧
    x.process.1.heard = x.heard ++ x.shown.told ∧
    Event.diagnostics x.shown.told = x.shown.diagnostics ∧
    x.shown.ok = !x.shown.diagnostics.any (·.terminal) ∧
    ({ options := options } : Machine).answers spare calls =
      ({ options := options } : Translator).answers calls := by
  intro x t input
  obtain ⟨hcarries, hanswers⟩ := (Machine.carries_new options).after spare calls
  have hnew := ((Machine.carries_new options).setInput spare' input).shown
  have hshown : x.shown = t.shown := hcarries.shown
  have hsame : t.shown = (({ options := options } : Translator).setInput input).shown := by
    obtain ⟨hoptions, hlines⟩ := Translator.after_eq options calls
    exact Translator.shown_congr hoptions hlines
  refine ⟨?_, hshown, hsame, ?_, ?_, ?_, hanswers⟩
  · rw [hshown, hsame, hnew]
  · have hheard := (Machine.process_eq x).2.2.2.2.2.1
    rw [Machine.shown, hheard, List.drop_left]
  · rw [hshown]
    rfl
  · rw [hshown, List.not_any_eq_all_not]
    rfl

end Courtesy
