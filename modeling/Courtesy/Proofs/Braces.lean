import Courtesy.Proofs.Steps

/-!
# Accounting for braces

Which blocks are open is a matter of the tokens alone: `Nesting.openLines` keeps a stack of line
numbers that looks at nothing but closing braces and tokens that open. `braces_by_tokens` shows that
a translation carries this stack, whatever it accepts or refuses, and that its two complaints about
braces are read off the stack.

That no other complaint can be mistaken for one of these two is a matter of wording: all the others
begin differently (`Diagnostic.Unbraced`).
-/

namespace Courtesy

open Statement

/-! ## The stack of open lines -/

namespace Nesting

/-- The stack behind lines that are numbered from `number` on. -/
def stackFrom (stack : List Nat) (lines : List String) (number : Nat) : List Nat :=
  (lines.zipIdx number).foldl (fun stack p => stackBehind stack p.1 p.2) stack

/-- The numbers of the lines that given lines leave open, the innermost first. -/
def openLines (lines : List String) : List Nat := stackFrom [] lines 1

/-- The numbers of the closing braces that find no line open. -/
def strayLines (lines : List String) : List Nat :=
  (lines.zipIdx.filter fun p => p.1 = "\x7d" ∧ openLines (lines.take p.2) = []).map (·.2 + 1)

example : openLines ["f() \x7b", "\x7b $", "\x7d", "\x7b \x7d"] = [4, 1] := by decide +kernel

theorem stackFrom_cons (stack : List Nat) (text : String) (lines : List String) (number : Nat) :
    stackFrom stack (text :: lines) number =
      stackFrom (stackBehind stack text number) lines (number + 1) := rfl

/-- Line numbers grow on the way in, and none is ahead of the lines. -/
def Descending (stack : List Nat) (number : Nat) : Prop :=
  stack.Pairwise (· > ·) ∧ ∀ n ∈ stack, n < number

theorem Descending.behind {stack : List Nat} {number : Nat} (h : Descending stack number)
    (text : String) : Descending (stackBehind stack text number) (number + 1) := by
  obtain ⟨hsorted, hbound⟩ := h
  have hlater : ∀ n ∈ stack, n < number + 1 := fun n hn => Nat.lt_succ_of_lt (hbound n hn)
  unfold stackBehind
  split
  · exact ⟨hsorted.tail, fun n hn => hlater n (List.mem_of_mem_tail hn)⟩
  · split
    · refine ⟨List.pairwise_cons.2 ⟨hbound, hsorted⟩, ?_⟩
      intro n hn
      rcases List.mem_cons.1 hn with rfl | hn
      · exact Nat.lt_succ_self n
      · exact hlater n hn
    · exact ⟨hsorted, hlater⟩

theorem descending_stackFrom {stack : List Nat} {number : Nat} (h : Descending stack number)
    (lines : List String) :
    Descending (stackFrom stack lines number) (number + lines.length) := by
  induction lines generalizing stack number with
  | nil => exact h
  | cons text lines ih =>
    rw [stackFrom_cons, List.length_cons, ← Nat.add_assoc, Nat.add_right_comm]
    exact ih (h.behind text)

/-- The outermost open line is the first of them. -/
theorem getLast?_openLines (lines : List String) :
    (openLines lines).getLast? = (openLines lines).min? := by
  have hstart : Descending [] 1 := ⟨List.Pairwise.nil, by simp⟩
  have hsorted : (openLines lines).Pairwise (· > ·) := (descending_stackFrom hstart lines).1
  generalize openLines lines = stack at hsorted
  rcases List.eq_nil_or_concat stack with rfl | ⟨outer, first, rfl⟩
  · rfl
  · rw [List.concat_eq_append] at hsorted ⊢
    rw [List.getLast?_concat, eq_comm, List.min?_eq_some_iff]
    refine ⟨by simp, fun n hn => ?_⟩
    rcases List.mem_append.1 hn with hn | hn
    · exact Nat.le_of_lt ((List.pairwise_append.1 hsorted).2.2 n hn first (by simp))
    · exact Nat.le_of_eq (List.mem_singleton.1 hn).symm

end Nesting

namespace Step

theorem stack_ofLines (st : State) (xs : List String) :
    (ofLines st xs).state.blocks = Nesting.stackFrom st.blocks xs st.lineNumber := by
  induction xs generalizing st with
  | nil => rfl
  | cons x xs ih =>
    have hnumber : (ofLine st x).state.lineNumber = st.lineNumber + 1 :=
      congrArg (· + 1) (ofLine_place st x).2
    rw [ofLines, ih, stack_ofLine, hnumber, Nesting.stackFrom_cons]

/-- What lines tell is what each of them tells, in order. -/
theorem events_ofLines (program : List String) {k : Nat} {xs : List String}
    (h : program.drop k = xs) :
    (ofLines (Run.before program k) xs).events =
      (xs.zipIdx k).flatMap fun p => (ofLine (Run.before program p.2) p.1).events := by
  induction xs generalizing k with
  | nil => rfl
  | cons x xs ih =>
    obtain ⟨hx, hrest⟩ := getElem?_of_drop h
    rw [ofLines, ← Run.before_succ hx, ih hrest, List.zipIdx_cons, List.flatMap_cons]

end Step

theorem Run.stack_before (program : List String) (k : Nat) :
    (before program k).blocks = Nesting.openLines (program.take k) :=
  Step.stack_ofLines _ _

/-! ## Wordings that begin differently -/

namespace Text

/-- Whether two texts differ at a place that both of them have. -/
def differ : List Char → List Char → Bool
  | a :: as, b :: bs => a != b || differ as bs
  | _, _ => false

theorem differ_append {as bs : List Char} (h : differ as bs = true) (cs : List Char) :
    differ as (bs ++ cs) = true := by
  induction as generalizing bs with
  | nil => cases h
  | cons a as ih =>
    cases bs with
    | nil => cases h
    | cons b bs =>
      rw [differ, Bool.or_eq_true] at h
      rw [List.cons_append, differ, Bool.or_eq_true]
      exact h.imp_right ih

theorem not_isPrefixOf_of_differ {as bs : List Char} (h : differ as bs = true) :
    as.isPrefixOf bs = false := by
  induction as generalizing bs with
  | nil => cases h
  | cons a as ih =>
    cases bs with
    | nil => cases h
    | cons b bs =>
      rw [differ, Bool.or_eq_true, bne_iff_ne] at h
      rw [List.isPrefixOf_cons_cons, Bool.and_eq_false_iff, beq_eq_false_iff_ne]
      exact h.imp_right ih

/-- What a constant text starts with is decided on its characters. -/
theorem startsWith_ofList_append {as bs : List Char} (h : as.isPrefixOf bs = true) (t : String) :
    startsWith (String.ofList as) (String.ofList bs ++ t) = true := by
  obtain ⟨rest, hrest⟩ := List.isPrefixOf_iff_prefix.1 h
  refine List.isPrefixOf_iff_prefix.2 ⟨rest ++ t.toList, ?_⟩
  rw [String.toList_append, String.toList_ofList, String.toList_ofList, ← hrest,
    List.append_assoc]

theorem startsWith_ofList_eq_false {as : List Char} {s : String}
    (h : differ as s.toList = true) : startsWith (String.ofList as) s = false := by
  rw [startsWith, String.toList_ofList]
  exact not_isPrefixOf_of_differ h

theorem startsWith_ofList_append_eq_false {as bs : List Char} (h : differ as bs = true)
    (t : String) : startsWith (String.ofList as) (String.ofList bs ++ t) = false := by
  apply startsWith_ofList_eq_false
  rw [String.toList_append, String.toList_ofList]
  exact differ_append h t.toList

end Text

namespace Diagnostic

/-- A closing brace in the line with the given number closes nothing. -/
def stray (number : Nat) : Diagnostic where
  category := .structural
  message := s!"Unexpected closing curly brace '\x7d' at line {number}. No matching opening brace."
  line := number
  column := 1

/-- The line with the given number is left open. -/
def unclosed (number : Nat) : Diagnostic where
  category := .structural
  message :=
    s!"Missing closing curly brace '\x7d'. Block starting at line {number} is not properly closed."
  line := number
  terminal := true

def isStray (d : Diagnostic) : Bool := Text.startsWith "Unexpected closing curly brace" d.message

def isUnclosed (d : Diagnostic) : Bool := Text.startsWith "Missing closing curly brace" d.message

/-- How the wording of a stray brace begins. -/
def strayLead : List Char :=
  ['U', 'n', 'e', 'x', 'p', 'e', 'c', 't', 'e', 'd', ' ', 'c', 'l', 'o', 's', 'i', 'n', 'g', ' ',
    'c', 'u', 'r', 'l', 'y', ' ', 'b', 'r', 'a', 'c', 'e']

/-- How the wording of an unclosed line begins. -/
def unclosedLead : List Char :=
  ['M', 'i', 's', 's', 'i', 'n', 'g', ' ', 'c', 'l', 'o', 's', 'i', 'n', 'g', ' ', 'c', 'u', 'r',
    'l', 'y', ' ', 'b', 'r', 'a', 'c', 'e']

/-- A wording that begins like neither of the two complaints about braces. -/
def Unbraced (message : String) : Prop :=
  Text.differ strayLead message.toList = true ∧ Text.differ unclosedLead message.toList = true

theorem unbraced_ofList {cs : List Char} (hs : Text.differ strayLead cs = true)
    (hu : Text.differ unclosedLead cs = true) : Unbraced (String.ofList cs) := by
  rw [Unbraced, String.toList_ofList]
  exact ⟨hs, hu⟩

theorem Unbraced.append {s : String} (h : Unbraced s) (t : String) : Unbraced (s ++ t) := by
  rw [Unbraced, String.toList_append]
  exact ⟨Text.differ_append h.1 _, Text.differ_append h.2 _⟩

theorem isStray_of_unbraced {d : Diagnostic} (h : Unbraced d.message) : d.isStray = false :=
  Text.startsWith_ofList_eq_false h.1

theorem isUnclosed_of_unbraced {d : Diagnostic} (h : Unbraced d.message) : d.isUnclosed = false :=
  Text.startsWith_ofList_eq_false h.2

theorem isStray_stray (number : Nat) : (stray number).isStray = true := by
  rw [isStray, stray, String.append_assoc]
  exact Text.startsWith_ofList_append rfl _

theorem isUnclosed_stray (number : Nat) : (stray number).isUnclosed = false := by
  rw [isUnclosed, stray, String.append_assoc]
  exact Text.startsWith_ofList_append_eq_false rfl _

theorem isStray_unclosed (number : Nat) : (unclosed number).isStray = false := by
  rw [isStray, unclosed, String.append_assoc]
  exact Text.startsWith_ofList_append_eq_false rfl _

theorem isUnclosed_unclosed (number : Nat) : (unclosed number).isUnclosed = true := by
  rw [isUnclosed, unclosed, String.append_assoc]
  exact Text.startsWith_ofList_append rfl _

end Diagnostic

namespace Statement

open Diagnostic

theorem Place.unbraced (place : Place) : Unbraced place.lead := by
  cases place with
  | argument param function =>
    exact ((((unbraced_ofList rfl rfl).append _).append _).append _).append _
  | _ => exact unbraced_ofList rfl rfl

theorem Fault.unbraced (fault : Fault) : Unbraced fault.message := by
  cases fault with
  | expression place fault => exact place.unbraced.append fault.message
  | _ =>
    -- the constant at the front of the wording decides
    delta Fault.message
    dsimp only
    repeat with_reducible apply Unbraced.append
    exact unbraced_ofList rfl rfl

end Statement

/-! ## What a line tells -/

/-- A complaint about one line and not about a brace. -/
structure Diagnostic.Ordinary (d : Diagnostic) : Prop where
  unbraced : Unbraced d.message
  terminal : d.terminal = false

namespace Step

open Diagnostic

theorem perform_ordinary (st : State) (text : String) :
    ∀ d ∈ Event.diagnostics (perform st text).1.events, d.Ordinary := by
  unfold perform
  split
  · intro d hd
    rw [List.mem_singleton.1 hd]
    exact ⟨(unbraced_ofList rfl rfl).append _, rfl⟩
  · intro d hd
    cases hd
  · dsimp only
    split
    · intro d hd
      rw [List.mem_singleton.1 hd]
      exact ⟨(unbraced_ofList rfl rfl).append _, rfl⟩
    · rename_i fault _
      intro d hd
      rw [List.mem_singleton.1 hd]
      exact ⟨fault.unbraced, rfl⟩
    · intro d hd
      cases hd

theorem missingReturn_ordinary (st : State) :
    ∀ d ∈ Event.diagnostics (missingReturn st), d.Ordinary := by
  intro d hd
  unfold missingReturn at hd
  split at hd
  · cases hd
  · split at hd
    · cases hd
    · split at hd
      · rw [List.mem_singleton.1 hd]
        exact ⟨((unbraced_ofList rfl rfl).append _).append _, rfl⟩
      · cases hd

theorem ordinary_ofLine {st : State} {text : String} (h : ¬ (text = "\x7d" ∧ st.blocks = [])) :
    ∀ d ∈ Event.diagnostics (ofLine st text).events, d.Ordinary := by
  by_cases ht : text = "\x7d"
  · subst ht
    obtain ⟨b, outer, hb⟩ := List.exists_cons_of_ne_nil fun hb => h ⟨rfl, hb⟩
    rw [ofLine_closing_cons hb]
    dsimp only
    split
    · exact missingReturn_ordinary _
    · intro d hd
      cases hd
  · rw [ofLine_statement ht]
    dsimp only
    exact perform_ordinary (marked st text) text

theorem stray_ofLine {st : State} (h : st.blocks = []) :
    Event.diagnostics (ofLine st "\x7d").events = [stray st.lineNumber] := by
  simp only [ofLine, beq_self_eq_true, ↓reduceIte, closing, h]
  rfl

theorem filter_isStray_ofLine (st : State) (text : String) :
    (Event.diagnostics (ofLine st text).events).filter isStray =
      if text = "\x7d" ∧ st.blocks = [] then [stray st.lineNumber] else [] := by
  split
  · rename_i h
    rw [h.1, stray_ofLine h.2, List.filter_cons_of_pos (isStray_stray _), List.filter_nil]
  · rename_i h
    rw [List.filter_eq_nil_iff]
    intro d hd
    rw [isStray_of_unbraced (ordinary_ofLine h d hd).unbraced]
    exact Bool.false_ne_true

theorem filter_isUnclosed_ofLine (st : State) (text : String) :
    (Event.diagnostics (ofLine st text).events).filter isUnclosed = [] := by
  rw [List.filter_eq_nil_iff]
  intro d hd
  by_cases h : text = "\x7d" ∧ st.blocks = []
  · rw [h.1, stray_ofLine h.2] at hd
    rw [List.mem_singleton.1 hd, isUnclosed_stray]
    exact Bool.false_ne_true
  · rw [isUnclosed_of_unbraced (ordinary_ofLine h d hd).unbraced]
    exact Bool.false_ne_true

theorem terminal_ofLine (st : State) (text : String) :
    ∀ d ∈ Event.diagnostics (ofLine st text).events, d.terminal = false := by
  intro d hd
  by_cases h : text = "\x7d" ∧ st.blocks = []
  · rw [h.1, stray_ofLine h.2] at hd
    rw [List.mem_singleton.1 hd]
    rfl
  · exact (ordinary_ofLine h d hd).terminal

end Step

/-! ## What a run tells -/

namespace Diagnostic

/-- There is no entry point. -/
def noEntryPoint : Diagnostic where
  category := .entryPoint
  message := "Missing required entry point: 'please define function void main() \x7b'. A void main function must be defined."
  terminal := true

theorem unbraced_noEntryPoint : Unbraced noEntryPoint.message := unbraced_ofList rfl rfl

end Diagnostic

theorem diagnostics_closingEvents (st : State) :
    Event.diagnostics (closingEvents st) =
      st.blocks.getLast?.toList.map Diagnostic.unclosed ++
        if st.hasEntryPoint then [] else [Diagnostic.noEntryPoint] := by
  unfold closingEvents
  rw [Event.diagnostics_append]
  congr 1
  · cases st.blocks.getLast? <;> rfl
  · split <;> rfl

theorem pairwise_zipIdx {α : Type} (xs : List α) :
    xs.zipIdx.Pairwise fun p q => p.2 < q.2 := by
  rw [← List.pairwise_map, List.zipIdx_map_snd]
  exact List.pairwise_lt_range' 1

theorem flatMap_eq_map_filter {α β : Type} {xs : List α} {g : α → List β} {p : α → Prop}
    [DecidablePred p] {f : α → β} (h : ∀ x ∈ xs, g x = if p x then [f x] else []) :
    xs.flatMap g = (xs.filter p).map f := by
  induction xs with
  | nil => rfl
  | cons x xs ih =>
    rw [List.flatMap_cons, ih fun y hy => h y (List.mem_cons_of_mem x hy), h x List.mem_cons_self,
      List.filter_cons]
    by_cases hx : p x
    · simp [hx]
    · simp [hx]

namespace Run

/-- The diagnostics of a run: those of its lines in order, and those of its end. -/
theorem diagnostics_ofLines (lines : List String) :
    (ofLines lines).diagnostics =
      (lines.zipIdx.flatMap fun p => Event.diagnostics (Step.ofLine (before lines p.2) p.1).events)
        ++ Event.diagnostics (closingEvents (before lines lines.length)) := by
  have hevents := Step.events_ofLines lines (k := 0) List.drop_zero
  have hend : (Step.ofLines { lines := lines } lines).state = before lines lines.length := by
    rw [before, List.take_length]
  rw [diagnostics, ofLines, Event.diagnostics_append, hend]
  congr 1
  unfold Event.diagnostics
  rw [← List.filterMap_flatMap, ← hevents]
  rfl

theorem filter_isStray_diagnostics (lines : List String) :
    (ofLines lines).diagnostics.filter Diagnostic.isStray =
      (Nesting.strayLines lines).map Diagnostic.stray := by
  have hend : (Event.diagnostics (closingEvents (before lines lines.length))).filter
      Diagnostic.isStray = [] := by
    rw [diagnostics_closingEvents, List.filter_eq_nil_iff]
    intro d hd
    rcases List.mem_append.1 hd with hd | hd
    · obtain ⟨n, -, rfl⟩ := List.mem_map.1 hd
      rw [Diagnostic.isStray_unclosed]
      exact Bool.false_ne_true
    · split at hd
      · cases hd
      · rw [List.mem_singleton.1 hd,
          Diagnostic.isStray_of_unbraced Diagnostic.unbraced_noEntryPoint]
        exact Bool.false_ne_true
  have hline : ∀ p ∈ lines.zipIdx,
      (Event.diagnostics (Step.ofLine (before lines p.2) p.1).events).filter Diagnostic.isStray =
        if p.1 = "\x7d" ∧ Nesting.openLines (lines.take p.2) = [] then
          [Diagnostic.stray (p.2 + 1)] else [] := by
    intro p hp
    have hk : p.2 < lines.length := List.snd_lt_of_mem_zipIdx hp
    rw [Step.filter_isStray_ofLine, stack_before, State.lineNumber, before_line (Nat.le_of_lt hk)]
  rw [diagnostics_ofLines, List.filter_append, hend, List.append_nil, List.filter_flatMap,
    flatMap_eq_map_filter hline, Nesting.strayLines, List.map_map]
  rfl

theorem filter_isUnclosed_diagnostics (lines : List String) :
    (ofLines lines).diagnostics.filter Diagnostic.isUnclosed =
      (Nesting.openLines lines).min?.toList.map Diagnostic.unclosed := by
  have hlines : (lines.zipIdx.flatMap fun p =>
      Event.diagnostics (Step.ofLine (before lines p.2) p.1).events).filter Diagnostic.isUnclosed
        = [] := by
    rw [List.filter_flatMap, List.flatMap_eq_nil_iff]
    exact fun p _ => Step.filter_isUnclosed_ofLine (before lines p.2) p.1
  have hentry : (if (before lines lines.length).hasEntryPoint then []
      else [Diagnostic.noEntryPoint]).filter Diagnostic.isUnclosed = [] := by
    have hno := Diagnostic.isUnclosed_of_unbraced Diagnostic.unbraced_noEntryPoint
    split
    · rfl
    · rw [List.filter_cons_of_neg (by rw [hno]; exact Bool.false_ne_true), List.filter_nil]
  rw [diagnostics_ofLines, List.filter_append, hlines, List.nil_append, diagnostics_closingEvents,
    List.filter_append, hentry, List.append_nil, stack_before, List.take_length,
    Nesting.getLast?_openLines, List.filter_eq_self]
  intro d hd
  obtain ⟨n, -, rfl⟩ := List.mem_map.1 hd
  exact Diagnostic.isUnclosed_unclosed n

end Run

/-- Braces are accounted for by the tokens of the lines alone. Before every line the open blocks are
those of the reference stack, and the depth is their number. A stray brace is told for exactly the
closing braces that find the reference stack empty, each at its line; and one line that is left open
is told when there is one, namely the first. -/
theorem braces_by_tokens (lines : List String) :
    (∀ k, (Run.before lines k).blocks = Nesting.openLines (lines.take k) ∧
      (Run.before lines k).indent = (Nesting.openLines (lines.take k)).length) ∧
    (Run.ofLines lines).diagnostics.filter
        (fun d => Text.startsWith "Unexpected closing curly brace" d.message) =
      (Nesting.strayLines lines).map Diagnostic.stray ∧
    (Run.ofLines lines).diagnostics.filter
        (fun d => Text.startsWith "Missing closing curly brace" d.message) =
      (Nesting.openLines lines).min?.toList.map Diagnostic.unclosed := by
  refine ⟨fun k => ?_, Run.filter_isStray_diagnostics lines,
    Run.filter_isUnclosed_diagnostics lines⟩
  have hstack := Run.stack_before lines k
  exact ⟨hstack, by rw [(Run.before_counted lines k).indent, hstack]⟩

end Courtesy
