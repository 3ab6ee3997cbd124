import Courtesy.Proofs.Layout
import Courtesy.Proofs.Lines

/-!
# The effect of a line

A line that defines no function either is told of once and yields no code, or is not told of and
yields code (`line_effect`). In the first case nothing of it stays but the block that its brace
opens, and the frame of that block is empty. In the second case the frames change by what the line
declares (`Line.Effect`). The table of functions stays as it is in both.
-/

namespace Courtesy

open Statement

/-! ## Lines hold a token -/

theorem Text.not_isBlank_of_trim {line : String} (htrim : trim line = line) {c : Char}
    {cs : List Char} (h : line.toList = c :: cs) : isBlank c = false := by
  have hcs : trimBy isBlank (c :: cs) = c :: cs := by
    rw [← h, ← String.toList_inj.2 htrim, trim, String.toList_ofList, trimBy_trimBy]
  have hdrop := dropWhile_reverse_dropWhile isBlank (dropWhile_dropWhile isBlank (c :: cs))
  rw [show ((List.dropWhile isBlank (c :: cs)).reverse.dropWhile isBlank).reverse = c :: cs
    from hcs] at hdrop
  cases hc : isBlank c with
  | false => rfl
  | true =>
    rw [List.dropWhile_cons_of_pos hc] at hdrop
    have hle := (List.dropWhile_suffix isBlank (l := cs)).length_le
    rw [hdrop, List.length_cons] at hle
    omega

theorem Token.ofLine_ne_nil {line : String} (htrim : Text.trim line = line) (hsolid : line ≠ "") :
    ofLine line ≠ .ok [] := by
  intro hl
  have htexts := texts_ofLine htrim hl
  cases hcs : line.toList with
  | nil => exact hsolid (String.toList_eq_nil_iff.1 hcs)
  | cons c cs =>
    have hblank := Text.not_isBlank_of_trim htrim hcs
    have hgap : Text.isGap c = false := by
      cases hg : Text.isGap c with
      | false => rfl
      | true => rw [Text.isBlank_of_isGap hg] at hblank; cases hblank
    obtain ⟨n, hn⟩ := Lexeme.lexemeLength?_some hgap cs
    rw [tokenize, Lexeme.scan, hcs, Lexeme.scanFrom, hgap, if_neg Bool.false_ne_true, hn] at htexts
    cases htexts

/-! ## What is booked -/

namespace Step

/-- The line is led by a phrase that starts a check or a loop. -/
def leadsControl (tokens : List String) : Bool :=
  tokens.head? = some "thank you for checking if" || tokens.head? = some "thank you for looping"

theorem isControl_eq (tokens : List String) : isControl tokens = leadsControl tokens := by
  cases tokens with
  | nil => rfl
  | cons first rest =>
    have hcheck : classify first = .check ↔ first = "thank you for checking if" :=
      ⟨text_of_check, by rintro rfl; rfl⟩
    have hloop : classify first = .loop ↔ first = "thank you for looping" :=
      ⟨text_of_loop, by rintro rfl; rfl⟩
    simp only [isControl, leadsControl, hcheck, hloop, List.head?_cons, Option.some.injEq]

/-- The state behind a line apart from frames and returns: the line is counted, and its block when
one of its tokens is an opening brace. -/
def booked (st : State) (text : String) : State :=
  if "\x7b" ∈ tokenize text then
    { st with
      line := st.line + 1
      indent := st.indent + 1
      blocks := (st.line + 1) :: st.blocks
      insideControl := st.insideControl || leadsControl (tokenize text) }
  else { st with line := st.line + 1 }

theorem marked_eq (st : State) (text : String) :
    marked st text = { marked st text with settled := st.settled, scope := st.scope } := by
  unfold marked
  split <;> rfl

/-- A statement that changes frames and returns at most leaves a booked state. -/
theorem booked_eq (st : State) (text : String) (frames : List Variables) (settled : List String)
    {vars : List Param} {new : Variables}
    (hnew : ({ st.scope with frames := [] :: frames } : Scope).declareAll vars =
      { st.scope with frames := new :: frames }) :
    let inner : State :=
      { marked st text with settled := settled, scope := { st.scope with frames := frames } }
    let st' := if opens (tokenize text) then inner.openBlock vars else inner
    ({ st' with line := st'.line + 1 } : State) =
      { booked st text with
        settled := settled
        scope := { st.scope with
          frames := if "\x7b" ∈ tokenize text then new :: frames else frames } } := by
  unfold booked marked
  rw [opens_eq, isControl_eq]
  by_cases hbrace : "\x7b" ∈ tokenize text
  · cases leadsControl (tokenize text) <;>
      simp [hbrace, State.openBlock, State.lineNumber, Scope.push, hnew]
  · simp [hbrace]

end Step

/-! ## What is changed -/

/-- How an accepted line that defines no function changes the frames. -/
inductive Line.Effect (text : String) (frames : List Variables) : List Variables → Prop
  | declares {x : String} {t : ValueType} (h : Declares text x t) :
      Effect text frames (((x, t) :: frames.headD []) :: frames.tail)
  | counts (h : Counts text) : Effect text frames ([("i", .integer)] :: frames)
  | opens (h : Leads "thank you for checking if" text ∨ Leads "thank you for looping" text)
      (hcounts : ¬ Counts text) : Effect text frames ([] :: frames)
  | keeps (hcreate : ¬ Leads "please create" text) (hloop : ¬ Leads "thank you for looping" text)
      (hcheck : ¬ Leads "thank you for checking if" text) : Effect text frames frames

/-- The frames behind an accepted line, its block included. -/
theorem Line.Change.effect {text : String} {first : Token} {rest : List Token}
    {frames frames' : List Variables} {o : Opening} (htrim : Text.trim text = text)
    (hl : Token.ofLine text = .ok (first :: rest)) (hshape : Shape (first :: rest) o.code)
    (h : Change text (first :: rest) frames frames' o) (s : Scope) :
    ∃ new, ({ s with frames := [] :: frames' } : Scope).declareAll o.vars =
        { s with frames := new :: frames' } ∧
      Effect text frames (if "\x7b" ∈ tokenize text then new :: frames' else frames') := by
  have hbrace : "\x7b" ∈ tokenize text ↔ ∃ t ∈ first :: rest, t.kind = .openBrace := by
    rw [← Token.opens_iff htrim hl, Step.opens_eq, decide_eq_true_iff]
  have hline : ∀ {line}, Shape (first :: rest) [line] → "\x7b" ∉ tokenize text := by
    intro line hshape
    rw [hbrace]
    generalize hcode : [line] = code at hshape
    cases hshape with
    | block _ _ => cases hcode
    | line hnone _ =>
      rintro ⟨t, ht, hk⟩
      exact hnone t ht hk
  cases h with
  | declares hd =>
    refine ⟨[], rfl, ?_⟩
    rw [if_neg (hline hshape)]
    exact .declares hd
  | counts hb hc =>
    refine ⟨[(counter, .integer)], rfl, ?_⟩
    rw [if_pos (hbrace.2 hb)]
    exact .counts hc
  | opens hb hlead hno =>
    refine ⟨[], rfl, ?_⟩
    rw [if_pos (hbrace.2 hb)]
    exact .opens hlead hno
  | keeps hcreate hloop hcheck =>
    refine ⟨[], rfl, ?_⟩
    rw [if_neg (hline hshape)]
    exact .keeps hcreate hloop hcheck

/-- A line that is no closing brace and defines no function is either refused or carried out. A
refused line leads to one diagnostic and to no code, and leaves at most the empty block that it
opens. A line that is carried out leads to code and to no diagnostic; of the scope it changes the
frames alone, by what it declares, and of the returns nothing unless it is one. -/
theorem line_effect {st : State} {text : String} (htrim : Text.trim text = text)
    (hsolid : text ≠ "") (hne : text ≠ "\x7d")
    (hdef : ¬ Line.Leads "please define function" text) :
    let step := Step.ofLine st text
    (∃ d, Event.diagnostics step.events = [d] ∧ step.emitted = [] ∧
      step.state =
        { Step.booked st text with
          scope := { st.scope with
            frames := if "\x7b" ∈ tokenize text then [] :: st.scope.frames
              else st.scope.frames } }) ∨
    (Event.diagnostics step.events = [] ∧ step.emitted ≠ [] ∧
      ∃ frames settled,
        step.state =
          { Step.booked st text with
            settled := settled
            scope := { st.scope with frames := frames } } ∧
        Line.Effect text st.scope.frames frames ∧
        (¬ Line.Leads "thank you for returning" text → settled = st.settled)) := by
  have hr := (Step.perform_reading (Step.marked st text) text).simple hdef
  have hsettled : (Step.booked st text).settled = st.settled := by
    unfold Step.booked
    split <;> rfl
  dsimp only
  rw [Step.ofLine_statement hne]
  generalize Step.perform (Step.marked st text) text = r at hr ⊢
  cases hr with
  | blank hl => exact absurd hl (Token.ofLine_ne_nil htrim hsolid)
  | refused d infos =>
    refine .inl ⟨d, by rw [Event.diagnostics_fault, Event.diagnostics_infos], rfl, ?_⟩
    dsimp only
    rw [Step.marked_eq, Step.booked_eq st text st.scope.frames st.settled rfl, ← hsettled]
  | @carried first rest frames settled st' o info hstate hl hp hchange hkept =>
    have hshape := hp.shape (Token.sound_of_ofLine hl)
    have hcode : o.code ≠ [] := by
      generalize o.code = code at hshape ⊢
      cases hshape <;> exact List.cons_ne_nil _ _
    rw [Step.marked_scope] at hstate hchange
    obtain ⟨new, hnew, heffect⟩ := hchange.effect htrim hl hshape st.scope
    refine .inr ⟨rfl, ?_, _, settled, ?_, heffect, ?_⟩
    · simpa [State.indented] using hcode
    · dsimp only
      rw [hstate]
      exact Step.booked_eq st text frames settled hnew
    · rw [Step.marked_eq] at hkept
      exact hkept

/-- A loop over nothing is refused and still opens its block. -/
theorem line_effect_refused :
    let text := "thank you for looping \x7b"
    let st := Run.before ["please create integer x"] 1
    let step := Step.ofLine st text
    step.emitted = [] ∧
      step.state =
        { Step.booked st text with
          scope := { st.scope with frames := [] :: st.scope.frames } } := by
  intro text st step
  obtain ⟨hdef, hbrace, hsome, htext⟩ : ¬ Line.Leads "please define function" text ∧
      "\x7b" ∈ tokenize text ∧ Event.diagnostics step.events ≠ [] ∧ Text.trim text = text := by
    decide +kernel
  rcases @line_effect st text htext (by decide) (by decide) hdef with ⟨-, -, he, hs⟩ | ⟨hd, -⟩
  · rw [if_pos hbrace] at hs
    exact ⟨he, hs⟩
  · exact absurd hd hsome

end Courtesy
