import Courtesy.Proofs.Columns
import Courtesy.Proofs.Spacing

/-!
# The layout of a source

Two sources that differ in their layout alone are translated alike (`translate_relaid`): the same
verdict, the same code and the same diagnostics up to columns. A layout is changed by other runs of
spaces and tabs outside of string literals, by other margins of lines, and by more or fewer blank
lines (`Text.Relaid`).

Trimming leaves two lists of lines that differ in runs of spaces and tabs only, so that each line
has the same tokens up to columns. The two translations are then in the same state before every
line, up to the lines of source that the states keep.
-/

namespace Courtesy

open Text Statement

/-! ## Layouts -/

namespace Text

/-- What may stand at either end of a line: spaces, tabs and carriage returns. -/
def IsMargin (cs : List Char) : Prop := ∀ c ∈ cs, c = ' ' ∨ c = '\t' ∨ c = '\r'

/-- Lists of lines that differ in their layout. -/
inductive Relaid : List String → List String → Prop
  | nil : Relaid [] []
  | line {a b a' b' x y : List Char} {ls ls' : List String} (ha : IsMargin a) (hb : IsMargin b)
      (ha' : IsMargin a') (hb' : IsMargin b') (hxy : Respaced x y) (h : Relaid ls ls') :
      Relaid (String.ofList (a ++ (x ++ b)) :: ls) (String.ofList (a' ++ (y ++ b')) :: ls')
  | delete {l : String} {ls ls' : List String} (hl : trim l = "") (h : Relaid ls ls') :
      Relaid (l :: ls) ls'
  | insert {l : String} {ls ls' : List String} (hl : trim l = "") (h : Relaid ls ls') :
      Relaid ls (l :: ls')

/-- Lists of lines that differ in their runs of spaces and tabs. -/
inductive Aligned : List String → List String → Prop
  | nil : Aligned [] []
  | cons {x y : String} {xs ys : List String} (hxy : Respaced x.toList y.toList)
      (h : Aligned xs ys) : Aligned (x :: xs) (y :: ys)

theorem IsMargin.isBlank {cs : List Char} (h : IsMargin cs) : ∀ c ∈ cs, isBlank c = true := by
  intro c hc
  rcases h c hc with rfl | rfl | rfl <;> decide

theorem isBlank_of_isSpaceOrTab (c : Char) (h : isSpaceOrTab c = true) : isBlank c = true := by
  simp only [isSpaceOrTab, Bool.or_eq_true, beq_iff_eq] at h
  rcases h with rfl | rfl <;> decide

/-- What is trimmed at the ends does not matter. -/
theorem trimBy_append {p : Char → Bool} {a b : List Char} (ha : ∀ c ∈ a, p c = true)
    (hb : ∀ c ∈ b, p c = true) (x : List Char) : trimBy p (a ++ (x ++ b)) = trimBy p x := by
  have hend : ∀ cs : List Char, trimBy p cs = dropEnd p (cs.dropWhile p) := fun _ => rfl
  rw [hend, hend, List.dropWhile_append_of_pos ha, List.dropWhile_append]
  split
  · rename_i hnil
    have hnil : x.dropWhile p = [] := List.isEmpty_iff.1 hnil
    have hblank : (b ++ []).dropWhile p = [] := List.dropWhile_append_of_pos hb
    rw [List.append_nil] at hblank
    rw [hblank, hnil]
  · rw [dropEnd_append, dropEnd_of_all p hb, if_pos rfl]

theorem Respaced.trim {s t : String} (h : Respaced s.toList t.toList) :
    Respaced (trim s).toList (trim t).toList := by
  rw [Text.trim, Text.trim, String.toList_ofList, String.toList_ofList]
  exact h.trimBy isBlank_of_isSpaceOrTab (by decide)

theorem solidLines_cons (l : String) (ls : List String) :
    solidLines (l :: ls) = if trim l = "" then solidLines ls else trim l :: solidLines ls := by
  unfold solidLines
  rw [List.map_cons, List.filter_cons]
  by_cases hl : trim l = ""
  · simp [hl]
  · simp [hl]

/-- Margins and blank lines are gone from the lines that are read. -/
theorem Relaid.aligned {ls ls' : List String} (h : Relaid ls ls') :
    Aligned (solidLines ls) (solidLines ls') := by
  induction h with
  | nil => exact .nil
  | delete hl _ ih =>
    rw [solidLines_cons, if_pos hl]
    exact ih
  | insert hl _ ih =>
    rw [solidLines_cons, if_pos hl]
    exact ih
  | @line a b a' b' x y ls ls' ha hb ha' hb' hxy _ ih =>
    have hleft : trim (String.ofList (a ++ (x ++ b))) = trim (String.ofList x) := by
      rw [trim, trim, String.toList_ofList, String.toList_ofList,
        trimBy_append ha.isBlank hb.isBlank]
    have hright : trim (String.ofList (a' ++ (y ++ b'))) = trim (String.ofList y) := by
      rw [trim, trim, String.toList_ofList, String.toList_ofList,
        trimBy_append ha'.isBlank hb'.isBlank]
    have htrim : Respaced (trim (String.ofList x)).toList (trim (String.ofList y)).toList :=
      Respaced.trim (by simpa using hxy)
    rw [solidLines_cons, solidLines_cons, hleft, hright]
    by_cases hx : trim (String.ofList x) = ""
    · have hy : trim (String.ofList y) = "" := by
        rw [hx] at htrim
        exact String.toList_inj.1 htrim.eq_nil
      rw [if_pos hx, if_pos hy]
      exact ih
    · have hy : trim (String.ofList y) ≠ "" := by
        intro hy
        rw [hy] at htrim
        exact hx (String.toList_inj.1 htrim.symm.eq_nil)
      rw [if_neg hx, if_neg hy]
      exact .cons htrim ih

theorem Respaced.closeBrace_iff {s t : String} (h : Respaced s.toList t.toList) :
    t = "\x7d" ↔ s = "\x7d" := by
  have hbrace : ∀ {s t : String}, Respaced s.toList t.toList → s = "\x7d" → t = "\x7d" := by
    rintro s t h rfl
    obtain ⟨more, htext, hmore⟩ := h.of_cons (by decide) (by decide)
    rw [hmore.eq_nil] at htext
    exact String.toList_inj.1 htext
  exact ⟨hbrace h.symm, hbrace h⟩

end Text

/-! ## Tokens -/

theorem Lexeme.refusal_of_text {l l' : Lexeme} (h : l'.text = l.text) :
    l'.refusal = l.refusal := by
  unfold refusal
  rw [h]

namespace Token

/-- Lexemes with the same texts become tokens that differ in their columns, or the same one is
refused. -/
theorem ofLexemes_texts {ls ls' : List Lexeme} (h : ls'.map Lexeme.text = ls.map Lexeme.text) :
    (∃ l l', ls.mapM ofLexeme = .error l ∧ ls'.mapM ofLexeme = .error l' ∧ l'.text = l.text) ∨
      ∃ ts ts', ls.mapM ofLexeme = .ok ts ∧ ls'.mapM ofLexeme = .ok ts' ∧
        ts'.map columnless = ts.map columnless := by
  induction ls generalizing ls' with
  | nil =>
    rw [List.map_nil, List.map_eq_nil_iff] at h
    subst h
    exact .inr ⟨[], [], rfl, rfl, rfl⟩
  | cons l ls ih =>
    obtain ⟨l', ls', rfl, hl, hls⟩ := List.map_eq_cons_iff.1 h
    rw [List.mapM_cons, List.mapM_cons]
    by_cases hkind : classify l.text = .invalid
    · have hleft : ofLexeme l = .error l := by rw [ofLexeme, if_pos hkind]
      have hright : ofLexeme l' = .error l' := by rw [ofLexeme, hl, if_pos hkind]
      rw [hleft, hright]
      exact .inl ⟨l, l', rfl, rfl, hl⟩
    · have hleft : ofLexeme l = .ok ⟨l.text, classify l.text, l.column⟩ := by
        rw [ofLexeme, if_neg hkind]
      have hright : ofLexeme l' = .ok ⟨l.text, classify l.text, l'.column⟩ := by
        rw [ofLexeme, hl, if_neg hkind]
      rw [hleft, hright]
      rcases ih hls with ⟨m, m', hm, hm', htext⟩ | ⟨ts, ts', hts, hts', heq⟩
      · rw [hm, hm']
        exact .inl ⟨m, m', rfl, rfl, htext⟩
      · rw [hts, hts']
        refine .inr ⟨_, _, rfl, rfl, ?_⟩
        rw [List.map_cons, List.map_cons, heq]
        rfl

theorem ofLine_respaced {s t : String} (h : Respaced s.toList t.toList) :
    (∃ l l', ofLine s = .error l ∧ ofLine t = .error l' ∧ l'.text = l.text) ∨
      ∃ ts ts', ofLine s = .ok ts ∧ ofLine t = .ok ts' ∧
        ts'.map columnless = ts.map columnless := by
  have htexts : tokenize (trim t) = tokenize (trim s) := tokenize_respaced h.trim
  unfold tokenize at htexts
  exact ofLexemes_texts htexts

end Token

/-! ## Lines -/

/-- A diagnostic without its column. -/
def Diagnostic.columnless (d : Diagnostic) : Diagnostic := { d with column := 0 }

namespace Step

/-- Steps that differ in the columns of their diagnostics and in what they tell of their progress;
the states behind them keep different lines of source. -/
structure Mirrors (lines : List String) (s t : Step) : Prop where
  state : t.state = s.state.over lines
  emitted : t.emitted = s.emitted
  diagnostics : (Event.diagnostics t.events).map Diagnostic.columnless =
    (Event.diagnostics s.events).map Diagnostic.columnless

section

variable (lines : List String) (st : State)

theorem perform_respaced {text text' : String} (h : Respaced text.toList text'.toList) :
    Mirrors lines (perform st text).1 (perform (st.over lines) text').1 ∧
      (perform (st.over lines) text').2 = (perform st text).2 := by
  unfold perform
  rcases Token.ofLine_respaced h with ⟨l, l', hl, hl', htext⟩ | ⟨ts, ts', hts, hts', heq⟩
  · have hrefusal := Lexeme.refusal_of_text htext
    have hnumber : (st.over lines).lineNumber = st.lineNumber := rfl
    rw [hl, hl']
    refine ⟨⟨rfl, rfl, ?_⟩, rfl⟩
    simp only [Event.diagnostics_fault, Event.diagnostics_nil, List.map_cons, List.map_nil,
      Diagnostic.columnless, hrefusal, hnumber]
  · rw [hts, hts']
    cases ts with
    | nil =>
      rw [List.map_nil, List.map_eq_nil_iff] at heq
      subst heq
      exact ⟨⟨rfl, rfl, rfl⟩, rfl⟩
    | cons first rest =>
      obtain ⟨first', rest', rfl, hfirst, -⟩ := List.map_eq_cons_iff.1 heq
      have hkind : first'.kind = first.kind := by
        rw [← Token.kind_columnless, hfirst, Token.kind_columnless]
      have htext : first'.text = first.text := by
        rw [← Token.text_columnless, hfirst, Token.text_columnless]
      have hperform : Statement.perform (st.over lines) first'.kind (first' :: rest') =
          (Statement.perform st first.kind (first :: rest)).map
            fun o => ⟨o.state.over lines, o.result⟩ := by
        rw [hkind, ← perform_columnless, heq, perform_columnless, perform_over]
      dsimp only
      rw [hperform]
      rcases Statement.perform st first.kind (first :: rest) with _ | ⟨st', fault | opening⟩
      · refine ⟨⟨rfl, rfl, ?_⟩, rfl⟩
        simp only [Option.map_none, Event.diagnostics_fault, Event.diagnostics_info,
          Event.diagnostics_nil, List.map_cons, htext]
        rfl
      · exact ⟨⟨rfl, rfl, rfl⟩, rfl⟩
      · exact ⟨⟨rfl, rfl, rfl⟩, rfl⟩

theorem closing_over (text : String) :
    Mirrors lines (closing st text) (closing (st.over lines) text) := by
  have hblocks : (st.over lines).blocks = st.blocks := rfl
  unfold closing
  rw [hblocks]
  cases st.blocks with
  | nil => exact ⟨rfl, rfl, rfl⟩
  | cons b outer =>
    have hindent : (st.over lines).indent = st.indent := rfl
    dsimp only
    rw [hindent]
    split
    · exact ⟨rfl, rfl, rfl⟩
    · exact ⟨rfl, rfl, rfl⟩

theorem marked_respaced {text text' : String} (h : Respaced text.toList text'.toList) :
    marked (st.over lines) text' = (marked st text).over lines := by
  unfold marked
  rw [tokenize_respaced h]
  split <;> rfl

theorem ofLine_respaced {text text' : String} (h : Respaced text.toList text'.toList) :
    Mirrors lines (ofLine st text) (ofLine (st.over lines) text') := by
  by_cases hbrace : text = "\x7d"
  · have hbrace' := h.closeBrace_iff.2 hbrace
    subst hbrace hbrace'
    obtain ⟨hstate, hemitted, hdiagnostics⟩ := closing_over lines st "\x7d"
    simp only [ofLine, beq_self_eq_true, if_true]
    refine ⟨?_, hemitted, hdiagnostics⟩
    dsimp only
    rw [hstate]
    generalize (closing st "\x7d").state = behind
    rfl
  · have hbrace' : text' ≠ "\x7d" := fun heq => hbrace (h.closeBrace_iff.1 heq)
    rw [ofLine_statement hbrace, ofLine_statement hbrace', marked_respaced lines st h,
      tokenize_respaced h]
    obtain ⟨hmirrors, hvars⟩ := perform_respaced lines (marked st text) h
    generalize perform ((marked st text).over lines) text' = r' at hmirrors hvars ⊢
    generalize perform (marked st text) text = r at hmirrors hvars ⊢
    obtain ⟨hstate, hemitted, hdiagnostics⟩ := hmirrors
    refine ⟨?_, hemitted, hdiagnostics⟩
    dsimp only
    rw [hstate, hvars]
    split <;> rfl

/-- Lines that differ in their runs of spaces and tabs lead through the same states. -/
theorem ofLines_aligned {xs ys : List String} (h : Aligned xs ys) :
    Mirrors lines (ofLines st xs) (ofLines (st.over lines) ys) := by
  induction h generalizing st with
  | nil => exact ⟨rfl, rfl, rfl⟩
  | @cons x y xs ys hxy _ ih =>
    obtain ⟨hstate, hemitted, hdiagnostics⟩ := ofLine_respaced lines st hxy
    obtain ⟨hstate', hemitted', hdiagnostics'⟩ := ih (ofLine st x).state
    rw [ofLines, ofLines, hstate]
    refine ⟨hstate', ?_, ?_⟩
    · dsimp only
      rw [hemitted, hemitted']
    · simp only [Event.diagnostics_append, List.map_append, hdiagnostics, hdiagnostics']

end

end Step

/-! ## Sources -/

theorem Run.succeeded_columnless (r : Run) :
    r.succeeded = (r.diagnostics.map Diagnostic.columnless).all (!·.terminal) := by
  rw [List.all_map]
  rfl

theorem closingEvents_over (lines : List String) (st : State) :
    closingEvents (st.over lines) = closingEvents st := by
  rfl

/-- The layout of a source does not matter: runs of spaces and tabs outside of string literals,
margins of lines and blank lines have no say in the verdict, in the code, and in the diagnostics
apart from their columns. -/
theorem translate_relaid {source source' : String} (h : Relaid (lines source) (lines source')) :
    (translate source').succeeded = (translate source).succeeded ∧
      (∀ options, (translate source').code options = (translate source).code options) ∧
      (translate source').diagnostics.map Diagnostic.columnless =
        (translate source).diagnostics.map Diagnostic.columnless := by
  have hstart : State.over (solidLines (lines source')) { lines := solidLines (lines source) } =
      { lines := solidLines (lines source') } := rfl
  have hmirrors := Step.ofLines_aligned (solidLines (lines source'))
    { lines := solidLines (lines source) } h.aligned
  rw [hstart] at hmirrors
  obtain ⟨hstate, hemitted, hdiagnostics⟩ := hmirrors
  have hbody : (translate source').body = (translate source).body := hemitted
  have hall : (translate source').diagnostics.map Diagnostic.columnless =
      (translate source).diagnostics.map Diagnostic.columnless := by
    simp only [translate, Run.ofLines, Run.diagnostics, Event.diagnostics_append, List.map_append]
    rw [hdiagnostics, hstate, closingEvents_over]
  refine ⟨?_, ?_, hall⟩
  · rw [Run.succeeded_columnless, hall, ← Run.succeeded_columnless]
  · intro options
    rw [Run.code, hbody, Run.code]

/-- A phrase with another gap, in a line with margins and behind a blank one. -/
theorem translate_relaid_phrase :
    let source := "please create \"b  c\""
    let source' := "\t\n\tplease\t create \"b  c\" \r"
    Relaid (lines source) (lines source') ∧
      (∀ options, (translate source').code options = (translate source).code options) ∧
      (translate source').diagnostics.map Diagnostic.columnless =
        (translate source).diagnostics.map Diagnostic.columnless := by
  have hspace : IsRun [' '] := ⟨List.cons_ne_nil _ _, List.all_eq_true.1 rfl⟩
  have htab : IsRun ['\t', ' '] := ⟨List.cons_ne_nil _ _, List.all_eq_true.1 rfl⟩
  have hrespaced : Respaced
      ['p', 'l', 'e', 'a', 's', 'e', ' ', 'c', 'r', 'e', 'a', 't', 'e', ' ', '"', 'b', ' ', ' ',
        'c', '"']
      ['p', 'l', 'e', 'a', 's', 'e', '\t', ' ', 'c', 'r', 'e', 'a', 't', 'e', ' ', '"', 'b', ' ',
        ' ', 'c', '"'] := by
    iterate 6 refine .char (by decide) (by decide) ?_
    exact .run hspace htab (.refl _)
  have hnone : IsMargin [] := by simp [IsMargin]
  have hleft : IsMargin ['\t'] := by simp [IsMargin]
  have hright : IsMargin [' ', '\r'] := by simp [IsMargin]
  have hline := Relaid.line hnone hnone hleft hright hrespaced .nil
  have hlines : lines "please create \"b  c\"" = ["please create \"b  c\""] := by decide +kernel
  have hlines' : lines "\t\n\tplease\t create \"b  c\" \r" =
      ["\t", "\tplease\t create \"b  c\" \r"] := by decide +kernel
  have hrelaid : Relaid (lines "please create \"b  c\"")
      (lines "\t\n\tplease\t create \"b  c\" \r") := by
    rw [hlines, hlines']
    exact .insert (by decide) hline
  obtain ⟨-, hcode, hdiagnostics⟩ := translate_relaid hrelaid
  exact ⟨hrelaid, hcode, hdiagnostics⟩

end Courtesy
