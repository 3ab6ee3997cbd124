import Courtesy.Proofs.Conditions
import Courtesy.Proofs.Lines
import Courtesy.Proofs.Rescanning

/-!
# The code of conditions

A condition is checked by position: operands stand at the even places of its tokens, and between
them the operators (`Derives`). It is lowered by spelling: every token that is an operator word
becomes an operator (`Target.symbol`). The two agree as long as no operand is spelled like an
operator word, and among numbers none can be. But `add`, `sub`, `mul` and `div` are good names for
boolean and text variables, and such a variable comes out as an operator (`condition_code`).
-/

namespace Courtesy

open Text Statement

namespace Condition

/-- The tokens at the even places. -/
def operandTokens : List String → List String
  | [] => []
  | [a] => [a]
  | a :: _ :: rest => a :: operandTokens rest

/-- The operator that an operator word stands for. -/
def operatorOf (word : String) : String :=
  ((Vocabulary.arithmetic ++ Vocabulary.comparisons).lookup word).getD word

/-- The tokens at the even places as they are, and the operators of the words between them. -/
def lowered : List String → List String
  | [] => []
  | [a] => [a]
  | a :: word :: rest => a :: operatorOf word :: lowered rest

example : lowered ["add", "different from", "b"] = ["add", "!=", "b"] := by decide

/-! ## Single tokens -/

theorem symbol_eq_operatorOf (t : String) : Target.symbol t = operatorOf t := by
  unfold Target.symbol operatorOf
  rw [List.lookup_append]
  cases Vocabulary.arithmetic.lookup t <;> rfl

/-- Only operator words are lowered to something else. -/
theorem symbol_eq_self {t : String} (harithmetic : t ∉ ["add", "sub", "mul", "div"])
    (hrelational : Vocabulary.isRelational t = false) : Target.symbol t = t := by
  rw [← isArithmetic_iff] at harithmetic
  have hword : Vocabulary.arithmetic.lookup t = none :=
    Option.not_isSome_iff_eq_none.1 harithmetic
  have hphrase : Vocabulary.comparisons.lookup t = none :=
    Option.not_isSome_iff_eq_none.1 (Bool.eq_false_iff.1 hrelational)
  rw [Target.symbol, hword, hphrase]
  rfl

/-- An operand gets shorter if it is spelled like an arithmetic word, and is kept otherwise. -/
theorem length_symbol {t : String} (hrelational : Vocabulary.isRelational t = false) :
    (Target.symbol t).toList.length ≤ t.toList.length ∧
      ((Target.symbol t).toList.length = t.toList.length → t ∉ ["add", "sub", "mul", "div"]) := by
  have hshorter : ∀ w ∈ ["add", "sub", "mul", "div"],
      (Target.symbol w).toList.length < w.toList.length := by decide
  by_cases h : t ∈ ["add", "sub", "mul", "div"]
  · have hlt := hshorter t h
    exact ⟨Nat.le_of_lt hlt, fun heq => absurd heq (Nat.ne_of_lt hlt)⟩
  · rw [symbol_eq_self h hrelational]
    exact ⟨Nat.le_refl _, fun _ => h⟩

/-! ## Places -/

section

variable {ts : List String}
  (hrelational : ∀ x ∈ operandTokens ts, Vocabulary.isRelational x = false)

include hrelational

theorem map_symbol_eq_lowered
    (harithmetic : ∀ x ∈ operandTokens ts, x ∉ ["add", "sub", "mul", "div"]) :
    ts.map Target.symbol = lowered ts := by
  fun_induction lowered ts with
  | case1 => rfl
  | case2 a =>
    rw [List.map_singleton, symbol_eq_self (harithmetic a List.mem_cons_self)
      (hrelational a List.mem_cons_self)]
  | case3 a word rest ih =>
    obtain ⟨ha, hrest⟩ := List.forall_mem_cons.1 harithmetic
    obtain ⟨ha', hrest'⟩ := List.forall_mem_cons.1 hrelational
    rw [List.map_cons, List.map_cons, symbol_eq_self ha ha', symbol_eq_operatorOf, ih hrest' hrest]

omit hrelational in
theorem joinedTail_cons (t : String) (ts : List String) :
    joinedTail (t :: ts) = ' ' :: (t.toList ++ joinedTail ts) := by
  rw [joinedTail, toList_spaced]

/-- The joined code is the shorter, the more operands are spelled like arithmetic words. -/
theorem length_joinedTail :
    (joinedTail (ts.map Target.symbol)).length ≤ (joinedTail (lowered ts)).length ∧
      ((joinedTail (ts.map Target.symbol)).length = (joinedTail (lowered ts)).length →
        ∀ x ∈ operandTokens ts, x ∉ ["add", "sub", "mul", "div"]) := by
  fun_induction lowered ts with
  | case1 => exact ⟨Nat.le_refl _, fun _ => List.forall_mem_nil _⟩
  | case2 a =>
    obtain ⟨hle, heq⟩ := length_symbol (hrelational a List.mem_cons_self)
    simp only [List.map_cons, List.map_nil, joinedTail_cons, List.length_cons, List.length_append]
    exact ⟨by omega, fun h => List.forall_mem_singleton.2 (heq (by omega))⟩
  | case3 a word rest ih =>
    obtain ⟨ha, hrest⟩ := List.forall_mem_cons.1 hrelational
    obtain ⟨hle, heq⟩ := length_symbol ha
    obtain ⟨hle', heq'⟩ := ih hrest
    simp only [List.map_cons, joinedTail_cons, List.length_cons, List.length_append,
      symbol_eq_operatorOf word]
    refine ⟨by omega, fun h => List.forall_mem_cons.2 ⟨heq (by omega), heq' (by omega)⟩⟩

/-- Lowering by spelling is lowering by place exactly if no operand is spelled like an arithmetic
word. -/
theorem spaced_map_symbol_iff :
    spaced (ts.map Target.symbol) = spaced (lowered ts) ↔
      ∀ x ∈ operandTokens ts, x ∉ ["add", "sub", "mul", "div"] := by
  constructor
  · intro h
    refine (length_joinedTail hrelational).2 ?_
    cases ts with
    | nil => rfl
    | cons a rest =>
      cases rest with
      | nil => simp only [List.map_cons, lowered, joinedTail] at h ⊢; rw [h]
      | cons word rest => simp only [List.map_cons, lowered, joinedTail] at h ⊢; rw [h]
  · intro h
    rw [map_symbol_eq_lowered hrelational h]

end

/-! ## Conditions -/

section

variable {vars : Variables}

/-- A side ends with an operand, so the operator behind it stands at an odd place. -/
theorem Alternates.operandTokens_append {left : List String} (h : Alternates vars left)
    (op : String) (right : List String) :
    operandTokens (left ++ op :: right) = operandTokens left ++ operandTokens right := by
  induction h with
  | last _ => rfl
  | more _ _ _ ih => exact congrArg (_ :: ·) ih

theorem Alternates.numeric_of_mem {side : List String} (h : Alternates vars side) :
    ∀ x ∈ operandTokens side, IsNumeric vars x := by
  induction h with
  | last ht => exact List.forall_mem_singleton.2 ht
  | more ht _ _ ih => exact List.forall_mem_cons.2 ⟨ht, ih⟩

variable (hnames : ∀ p ∈ vars, classify p.1 = .identifier)

include hnames

theorem IsBoolean.not_relational {t : String} (h : IsBoolean vars t) :
    Vocabulary.isRelational t = false := by
  rcases h with rfl | rfl | h
  · rfl
  · rfl
  · exact (identified_of_lookup hnames h).1.isRelational

/-- No operand of a condition is a relational phrase. -/
theorem Derives.not_relational {ts : List String} (h : Derives vars ts) :
    ∀ x ∈ operandTokens ts, Vocabulary.isRelational x = false := by
  have hpair : ∀ {a op b : String}, Vocabulary.isRelational a = false →
      Vocabulary.isRelational b = false →
      ∀ x ∈ operandTokens [a, op, b], Vocabulary.isRelational x = false := fun ha hb =>
    List.forall_mem_cons.2 ⟨ha, List.forall_mem_singleton.2 hb⟩
  cases h with
  | truth ha => exact List.forall_mem_singleton.2 (ha.not_relational hnames)
  | booleans ha _ hb => exact hpair (ha.not_relational hnames) (hb.not_relational hnames)
  | texts ha _ hb =>
    exact hpair (IsText.not_relational hnames (.inl ha)) (hb.not_relational hnames)
  | numbers hleft _ hright =>
    rw [hleft.operandTokens_append]
    intro x hx
    rcases List.mem_append.1 hx with hx | hx
    · exact (hleft.numeric_of_mem x hx).not_relational hnames
    · exact (hright.numeric_of_mem x hx).not_relational hnames

end

end Condition

/-! ## Headers -/

namespace Statement

/-- The tokens of a condition stand between the words that lead the header and its brace. -/
theorem headerTokens_front {header : Header} {start : Nat} {tokens inner : List Token}
    (h : headerTokens header start tokens = .ok inner) (hne : inner ≠ []) :
    ∃ brace, tokens = tokens.take start ++ (inner ++ [brace]) ∧ brace.kind = .openBrace := by
  unfold headerTokens at h
  split at h
  · cases h
  · rename_i n hindex
    split at h
    · cases h
    · rename_i hdrop
      cases h
      obtain ⟨brace, hbrace, hk⟩ := exists_kind_of_index? hindex
      refine ⟨brace, ?_, hk⟩
      have hlast : tokens.drop n = [brace] := by
        rw [List.drop_eq_getElem?_toList_append, hbrace, hdrop]
        rfl
      have hstart : start < n := by
        have hlength : 0 < ((tokens.take n).drop start).length := List.length_pos_iff.2 hne
        rw [List.length_drop, List.length_take] at hlength
        omega
      have hfront : tokens.take start = (tokens.take n).take start := by
        rw [List.take_take, Nat.min_eq_left (Nat.le_of_lt hstart)]
      rw [hfront, ← List.append_assoc, List.take_append_drop, ← hlast, List.take_append_drop]

theorem condition_ok {scope : Scope} {header : Header} {tokens : List Token} {code : String}
    (h : condition scope header tokens = .ok code) :
    tokens ≠ [] ∧ Condition.check scope.visible (Token.join tokens) = .ok () ∧
      code = Target.lower (Token.join tokens) := by
  unfold condition at h
  split at h
  · cases h
  · rename_i hne
    dsimp only at h
    split at h
    · cases h
    · rename_i hcheck
      cases h
      exact ⟨by simpa using hne, hcheck, rfl⟩

section

variable {scope : Scope} {first : Token} {rest : List Token} {o : Opening}

theorem ifStatement_asks (h : ifStatement scope (first :: rest) = .ok o) :
    ∃ cond brace code, first :: rest = [first] ++ (cond ++ [brace]) ∧ brace.kind = .openBrace ∧
      condition scope .ifStatement cond = .ok code ∧ o.code = headed ("if (" ++ code ++ ")") := by
  unfold ifStatement at h
  obtain ⟨cond, hcond, h⟩ := except_bind_ok.1 h
  obtain ⟨code, hcode, h⟩ := except_bind_ok.1 h
  cases h
  obtain ⟨brace, htokens, hk⟩ := headerTokens_front hcond (condition_ok hcode).1
  exact ⟨cond, brace, code, htokens, hk, hcode, rfl⟩

theorem whileLoop_asks (h : whileLoop scope (first :: rest) = .ok o) :
    ∃ word cond brace code, first :: rest = [first, word] ++ (cond ++ [brace]) ∧
      word.kind = .whileWord ∧ brace.kind = .openBrace ∧
      condition scope .whileLoop cond = .ok code ∧ o.code = headed ("while (" ++ code ++ ")") := by
  unfold whileLoop at h
  split at h
  · cases h
  · rename_i hindex
    obtain ⟨cond, hcond, h⟩ := except_bind_ok.1 h
    obtain ⟨code, hcode, h⟩ := except_bind_ok.1 h
    cases h
    obtain ⟨brace, htokens, hk⟩ := headerTokens_front hcond (condition_ok hcode).1
    obtain ⟨word, hword, hkind⟩ := exists_kind_of_index? (Decidable.not_not.1 hindex)
    cases rest with
    | nil => cases hword
    | cons second rest =>
      cases hword
      exact ⟨word, cond, brace, code, htokens, hkind, hk, hcode, rfl⟩

end

end Statement

/-- An accepted check or conditional loop, with the words that lead it and the word of its code. -/
theorem Step.Accepts.asks {st : State} {text : String} (hacc : Step.Accepts st text)
    (hlead : Line.Leads "thank you for checking if" text ∨
      Line.Leads "thank you for looping" text ∧ ¬ Line.Counts text) :
    ∃ words keyword front cond brace,
      (words, keyword) ∈
        [(["thank you for checking if"], "if"), (["thank you for looping", "while"], "while")] ∧
      Token.ofLine text = .ok (front ++ (cond ++ [brace])) ∧ Token.texts front = words ∧
      brace.text = "\x7b" ∧ Condition.check st.scope.visible (Token.join cond) = .ok () ∧
      (Step.ofLine st text).emitted =
        st.indented (headed (keyword ++ " (" ++ Target.lower (Token.join cond) ++ ")")) := by
  have hbrace : ∀ {tokens : List Token} {brace : Token}, Token.ofLine text = .ok tokens →
      brace ∈ tokens → brace.kind = .openBrace → brace.text = "\x7b" := fun hl hmem hk =>
    text_of_openBrace ((Token.valid_of_ofLine hl _ hmem).1.symm.trans hk)
  rcases hlead with hlead | ⟨hlead, hcounts⟩
  · obtain ⟨first, rest, hl, hfirst⟩ := id hlead
    have hk : first.kind = .check := Line.kind_of_leads hlead hl
    obtain ⟨st', o, hp, hemitted⟩ := hacc.carried (hlead.ne_closing (by decide)) hl
    rw [hk] at hp
    cases hp with
    | checked hok =>
      rw [marked_scope] at hok
      obtain ⟨cond, brace, code, htokens, hkind, hcode, ho⟩ := ifStatement_asks hok
      obtain ⟨-, hcheck, rfl⟩ := condition_ok hcode
      rw [htokens] at hl
      rw [ho] at hemitted
      exact ⟨_, "if", [first], cond, brace, .head _, hl, congrArg (fun t => [t]) hfirst,
        hbrace hl (by simp) hkind, hcheck, hemitted⟩
  · obtain ⟨first, rest, hl, hfirst⟩ := id hlead
    have hk : first.kind = .loop := Line.kind_of_leads hlead hl
    obtain ⟨st', o, hp, hemitted⟩ := hacc.carried (hlead.ne_closing (by decide)) hl
    rw [hk] at hp
    cases hp with
    | looped hok =>
      rw [marked_scope] at hok
      rcases loop_ok hok with hfor | ⟨hwhile, -⟩
      · obtain ⟨lead, second, rest', -, -, htokens, hfrom, -⟩ := forLoop_ok hfor
        cases htokens
        have hvalid := (Token.valid_of_ofLine hl second (by simp)).1
        exact absurd ⟨first, second, rest', hl, hfirst, text_of_fromWord (hvalid.symm.trans hfrom)⟩
          hcounts
      · obtain ⟨word, cond, brace, code, htokens, hword, hkind, hcode, ho⟩ := whileLoop_asks hwhile
        obtain ⟨-, hcheck, rfl⟩ := condition_ok hcode
        rw [htokens] at hl
        rw [ho] at hemitted
        have hvalid := (Token.valid_of_ofLine hl word (by simp)).1
        have hwhileText : word.text = "while" :=
          text_of_classify (hvalid.symm.trans hword) (by decide) (by decide)
        have hwords : Token.texts [first, word] = ["thank you for looping", "while"] := by
          simp [Token.texts, hfirst, hwhileText]
        exact ⟨_, "while", [first, word], cond, brace, .tail _ (.head _), hl, hwords,
          hbrace hl (by simp) hkind, hcheck, hemitted⟩

theorem Scope.Built.names {s : Scope} (h : s.Built) :
    ∀ p ∈ s.visible, classify p.1 = .identifier := by
  have hsub : ∀ frames : List Variables, Scope.visibleIn frames ⊆ frames.flatten := by
    intro frames
    induction frames with
    | nil => exact List.Subset.refl _
    | cons frame outer ih =>
      rw [Scope.visibleIn, List.flatten_cons]
      refine List.append_subset.2 ⟨List.subset_append_left _ _, fun p hp => ?_⟩
      exact List.mem_append_right _ (ih (List.mem_filter.1 hp).1)
  rintro ⟨x, t⟩ hp
  exact (h.named (hsub s.frames hp)).1

theorem State.indented_headed_inj {st : State} {front back a b : String}
    (h : st.indented (headed (front ++ a ++ back)) = st.indented (headed (front ++ b ++ back))) :
    a = b := by
  have hhead := congrArg String.toList (List.cons.inj h).1
  simpa [String.toList_append, String.toList_inj] using hhead

/-- The code of an accepted check or conditional loop. Its condition stands between the words that
lead the line and the brace; the tokens of the condition are derived by the grammar, and they are
those of the line unless it holds a vertical tab. The code is these tokens with every operator word
replaced, joined by single spaces. So just the words between the operands are replaced, and all
operands are kept, exactly if no operand is spelled like an arithmetic word. -/
theorem condition_code (input : List String) {n : Nat} {text : String}
    (hlead : Line.Leads "thank you for checking if" text ∨
      Line.Leads "thank you for looping" text ∧ ¬ Line.Counts text)
    (hacc : Step.Accepts (Run.before (solidLines input) n) text) :
    let st := Run.before (solidLines input) n
    ∃ words keyword front cond brace,
      (words, keyword) ∈
        [(["thank you for checking if"], "if"), (["thank you for looping", "while"], "while")] ∧
      Token.ofLine text = .ok (front ++ (cond ++ [brace])) ∧ Token.texts front = words ∧
      brace.text = "\x7b" ∧
      let ts := tokenize (Token.join cond)
      ('\x0b' ∉ text.toList → ts = Token.texts cond) ∧
      Condition.Derives st.scope.visible ts ∧
      (Step.ofLine st text).emitted =
        st.indented (headed (keyword ++ " (" ++ spaced (ts.map Target.symbol) ++ ")")) ∧
      ((Step.ofLine st text).emitted =
          st.indented (headed (keyword ++ " (" ++ spaced (Condition.lowered ts) ++ ")")) ↔
        ∀ x ∈ Condition.operandTokens ts, x ∉ ["add", "sub", "mul", "div"]) := by
  intro st
  have hnames := (Run.before_built (solidLines input) n).names
  obtain ⟨words, keyword, front, cond, brace, hwords, hl, hfront, hbrace, hcheck, hemitted⟩ :=
    hacc.asks hlead
  have hderives : Condition.Derives st.scope.visible (tokenize (Token.join cond)) :=
    Condition.derives_of_check hnames hcheck
  have hpart : cond <:+: front ++ (cond ++ [brace]) := ⟨front, [brace], List.append_assoc _ _ _⟩
  refine ⟨words, keyword, front, cond, brace, hwords, hl, hfront, hbrace,
    fun htab => Token.tokenize_join htab hl hpart, hderives, hemitted, ?_⟩
  · rw [← Condition.spaced_map_symbol_iff (hderives.not_relational hnames), hemitted]
    constructor
    · exact State.indented_headed_inj
    · intro h
      rw [Target.lower, h]

/-- A string that is spelled like an arithmetic word between its quotes is no such word. -/
theorem condition_code_quoted :
    let st := Run.before (solidLines ["please create text s"]) 1
    let text := "thank you for looping while s equal to \"add\" \x7b"
    (Line.Leads "thank you for looping" text ∧ ¬ Line.Counts text) ∧ Step.Accepts st text ∧
      ∃ keyword cond, Condition.Derives st.scope.visible (tokenize (Token.join cond)) ∧
        ((Step.ofLine st text).emitted = st.indented (headed (keyword ++ " (" ++
            spaced (Condition.lowered (tokenize (Token.join cond))) ++ ")")) ↔
          ∀ x ∈ Condition.operandTokens (tokenize (Token.join cond)),
            x ∉ ["add", "sub", "mul", "div"]) := by
  intro st text
  obtain ⟨hl, hacc⟩ : (Token.ofLine text).toOption = some [⟨"thank you for looping", .loop, 1⟩,
      ⟨"while", .whileWord, 23⟩, ⟨"s", .identifier, 29⟩, ⟨"equal to", .relational, 31⟩,
      ⟨"\"add\"", .string, 40⟩, ⟨"\x7b", .openBrace, 46⟩] ∧ Step.Accepts st text := by
    unfold Step.Accepts
    decide +kernel
  rw [except_toOption_eq_some] at hl
  have hlead : Line.Leads "thank you for looping" text ∧ ¬ Line.Counts text := by
    refine ⟨⟨_, _, hl, rfl⟩, ?_⟩
    rintro ⟨lead, second, rest, hl', -, hsecond⟩
    rw [hl] at hl'
    cases hl'
    revert hsecond
    decide
  obtain ⟨-, keyword, -, cond, -, -, -, -, -, -, hderives, -, hiff⟩ :=
    condition_code ["please create text s"] (n := 1) (.inr hlead) hacc
  exact ⟨hlead, hacc, keyword, cond, hderives, hiff⟩

/-- A boolean variable with the name of an arithmetic word is checked as an operand and comes out as
an operator. -/
theorem operand_lowered_as_operator :
    let st := Run.before ["please create boolean add"] 1
    let text := "thank you for checking if add \x7b"
    st.scope.visible.lookup "add" = some .boolean ∧ Step.Accepts st text ∧
      Token.ofLine text = .ok [⟨"thank you for checking if", .check, 1⟩, ⟨"add", .identifier, 27⟩,
        ⟨"\x7b", .openBrace, 31⟩] ∧
      Condition.lowered ["add"] = ["add"] ∧ (Step.ofLine st text).emitted = ["if (+)", "\x7b"] := by
  intro st text
  rw [← except_toOption_eq_some, Step.Accepts]
  decide +kernel

end Courtesy
