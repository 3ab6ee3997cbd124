import Courtesy.Proofs.Braces
import Courtesy.Proofs.Functions

/-!
# The verdict of a run

Whether a run succeeds is decided by the tokens of its lines (`succeeded_iff`): no line may be left
open, and the first line that has the shape of a header for `main` must read
`please define function void main ( ) {`. The first such line makes the entry of `main` in the table
of functions, and no later line changes it, whatever else is told on the way.
-/

namespace Courtesy

open Statement

theorem ValueType.name_of_ofName? {text : String} {t : ValueType} (h : ofName? text = some t) :
    t.name = text := by
  simpa using List.find?_some h

/-- The header of an entry point, as it is read off the tokens. -/
theorem Line.reads_main_iff {text : String} :
    Reads ["please define function", "void", "main", "(", ")", "\x7b"] text ↔
      ∃ first rest h, Token.ofLine text = .ok (first :: rest) ∧ first.kind = .define ∧
        functionHeader (first :: rest) = .ok h ∧ h.name = "main" ∧ h.result = .void ∧
        h.paramTokens = [] := by
  constructor
  · rintro ⟨tokens, hl, htexts⟩
    simp only [Token.texts, List.map_eq_cons_iff, List.map_eq_nil_iff] at htexts
    obtain ⟨lead, _, rfl, hlead, result, _, rfl, hresult, name, _, rfl, hname, paren, _, rfl,
      hparen, close, _, rfl, hclose, brace, _, rfl, hbrace, rfl⟩ := htexts
    have kind : ∀ t ∈ [lead, result, name, paren, close, brace], t.kind = classify t.text :=
      fun t ht => (Token.valid_of_ofLine hl t ht).1
    simp only [List.forall_mem_cons, hlead, hresult, hname, hparen, hclose, hbrace] at kind
    obtain ⟨klead, kresult, kname, kparen, kclose, kbrace, -⟩ := kind
    refine ⟨lead, _, ⟨"main", .void, []⟩, hl, klead, ?_, rfl, rfl, rfl⟩
    rw [functionHeader_iff]
    exact ⟨lead, result, name, paren, close, brace, rfl, kresult, kname, kparen, kclose, kbrace,
      hname.symm, by rw [hresult]; rfl⟩
  · rintro ⟨first, rest, h, hl, hlead, hh, hname, hresult, hparams⟩
    obtain ⟨lead, result, nameToken, paren, close, brace, htokens, kresult, -, kparen, kclose,
      kbrace, hn, hr⟩ := functionHeader_iff.1 hh
    rw [hparams] at htokens
    cases htokens
    have kind : ∀ t ∈ [first, result, nameToken, paren, close, brace], t.kind = classify t.text :=
      fun t ht => (Token.valid_of_ofLine hl t ht).1
    simp only [List.forall_mem_cons, hlead, kresult, kparen, kclose, kbrace] at kind
    obtain ⟨klead, kresult, -, kparen, kclose, kbrace, -⟩ := kind
    obtain ⟨type, htype⟩ := ofName?_of_typeName kresult.symm
    have hvoid : result.text = "void" := by
      rw [hresult, htype] at hr
      rw [← ValueType.name_of_ofName? htype, ← show ValueType.void = type from hr]
      rfl
    refine ⟨_, hl, ?_⟩
    simp only [Token.texts, List.map_cons, List.map_nil, List.nil_append]
    rw [text_of_define klead.symm, hvoid, ← hn, hname, text_of_openParen kparen.symm,
      text_of_closeParen kclose.symm, text_of_openBrace kbrace.symm]

/-! ## The entry point -/

namespace Statement.State

theorem hasEntryPoint_iff (st : State) :
    st.hasEntryPoint = true ↔ ∃ f, st.scope.function? "main" = some f ∧
      "main" ∉ st.malformed ∧ f.result = .void ∧ f.params = [] := by
  unfold hasEntryPoint
  cases st.scope.function? "main" with
  | none => simp
  | some f => simp [and_assoc]

theorem SameEntry.hasEntryPoint_iff {s t : State} (h : s.SameEntry "main" t) :
    t.hasEntryPoint = true ↔ s.hasEntryPoint = true := by
  rw [State.hasEntryPoint_iff, State.hasEntryPoint_iff, h.function?, h.malformed]

end Statement.State

namespace Step

section

variable {st : State} (hnone : st.scope.function? "main" = none) (hmark : "main" ∉ st.malformed)

include hnone hmark

theorem hasEntryPoint_ofLine {text : String} (hheads : Line.Heads "main" text) :
    (ofLine st text).state.scope.function? "main" ≠ none ∧
      ((ofLine st text).state.hasEntryPoint = true ↔
        Line.Reads ["please define function", "void", "main", "(", ")", "\x7b"] text) := by
  obtain ⟨first, rest, h, hl, hlead, hh, hname⟩ := Line.heads_iff.1 hheads
  obtain ⟨hentry, hmalformed⟩ := entered_ofLine hl hlead hh (by rw [hname]; exact hnone)
  rw [hname] at hentry hmalformed
  refine ⟨by rw [hentry]; exact Option.some_ne_none _, ?_⟩
  rw [State.hasEntryPoint_iff, hentry, hmalformed, or_iff_left hmark, ne_eq, Decidable.not_not,
    Line.reads_main_iff]
  constructor
  · rintro ⟨f, hf, hfault, hvoid, hparams⟩
    cases hf
    exact ⟨first, rest, h, hl, hlead, hh, hname, hvoid, params_eq_nil_iff.1 ⟨hparams, hfault⟩⟩
  · rintro ⟨first', rest', h', hl', -, hh', -, hvoid, hparams⟩
    rw [hl] at hl'
    cases hl'
    rw [hh] at hh'
    cases hh'
    obtain ⟨hnil, hfault⟩ := params_eq_nil_iff.2 hparams
    exact ⟨_, rfl, hfault, hvoid, hnil⟩

/-- The first header of `main` decides. -/
theorem hasEntryPoint_ofLines (xs : List String) :
    (ofLines st xs).state.hasEntryPoint = true ↔
      ∃ before text after, xs = before ++ text :: after ∧
        (∀ line ∈ before, ¬ Line.Heads "main" line) ∧
        Line.Reads ["please define function", "void", "main", "(", ")", "\x7b"] text := by
  induction xs generalizing st with
  | nil =>
    have hno : ¬ (ofLines st []).state.hasEntryPoint = true := by
      rw [ofLines, State.hasEntryPoint_iff, hnone]
      simp
    simp [hno]
  | cons x xs ih =>
    rw [ofLines]
    by_cases hx : Line.Heads "main" x
    · obtain ⟨hentry, hverdict⟩ := hasEntryPoint_ofLine hnone hmark hx
      rw [(entry_ofLines hentry xs).hasEntryPoint_iff, hverdict]
      constructor
      · intro hreads
        exact ⟨[], x, xs, rfl, by simp, hreads⟩
      · rintro ⟨before, text, after, heq, hbefore, hreads⟩
        cases before with
        | nil =>
          cases heq
          exact hreads
        | cons y before =>
          cases heq
          exact absurd hx (hbefore x List.mem_cons_self)
    · have hsame := entry_ofLine st fun h => absurd h hx
      rw [ih (hsame.function?.trans hnone) (by rw [hsame.malformed]; exact hmark)]
      constructor
      · rintro ⟨before, text, after, rfl, hbefore, hreads⟩
        exact ⟨x :: before, text, after, rfl, List.forall_mem_cons.2 ⟨hx, hbefore⟩, hreads⟩
      · rintro ⟨before, text, after, heq, hbefore, hreads⟩
        cases before with
        | nil =>
          cases heq
          obtain ⟨first, rest, h, hl, hlead, hh, hname, -⟩ := Line.reads_main_iff.1 hreads
          exact absurd (Line.heads_iff.2 ⟨first, rest, h, hl, hlead, hh, hname⟩) hx
        | cons y before =>
          cases heq
          exact ⟨before, text, after, rfl, (List.forall_mem_cons.1 hbefore).2, hreads⟩

end

end Step

/-! ## The verdict -/

theorem Run.succeeded_ofLines (lines : List String) :
    (ofLines lines).succeeded = true ↔
      (before lines lines.length).blocks = [] ∧
        (before lines lines.length).hasEntryPoint = true := by
  have hlines : ∀ d ∈ lines.zipIdx.flatMap fun p =>
      Event.diagnostics (Step.ofLine (before lines p.2) p.1).events, d.terminal = false := by
    intro d hd
    obtain ⟨p, -, hd⟩ := List.mem_flatMap.1 hd
    exact Step.terminal_ofLine _ _ d hd
  rw [succeeded, diagnostics_ofLines, diagnostics_closingEvents, List.all_append,
    List.all_append, List.all_eq_true.2 fun d hd => by rw [hlines d hd]; rfl, Bool.true_and,
    Bool.and_eq_true]
  refine and_congr ?_ ?_
  · cases hb : (before lines lines.length).blocks with
    | nil => simp
    | cons b outer => simp [List.getLast?_cons, Diagnostic.unclosed]
  · cases (before lines lines.length).hasEntryPoint <;> simp [Diagnostic.noEntryPoint]

/-- A run succeeds exactly when its lines leave none open, and the first line in the shape of a
header for `main` is `please define function void main ( ) {`. -/
theorem succeeded_iff (lines : List String) :
    (Run.ofLines lines).succeeded = true ↔
      Nesting.openLines lines = [] ∧
        ∃ before text after, lines = before ++ text :: after ∧
          (∀ line ∈ before, ¬ Line.Heads "main" line) ∧
          Line.Reads ["please define function", "void", "main", "(", ")", "\x7b"] text := by
  rw [Run.succeeded_ofLines, Run.stack_before, Run.before, List.take_length]
  exact and_congr Iff.rfl (Step.hasEntryPoint_ofLines rfl (by simp) lines)

end Courtesy
