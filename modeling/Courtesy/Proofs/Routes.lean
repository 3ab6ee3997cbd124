import Courtesy.Proofs.Rendering

/-!
# The routes of a literal

A literal can come into the code in four ways: in a value, as an argument, in a condition, and where
it is printed. `Performed.quotes` says for every statement that its code quotes what its tokens
quote. On the first two ways the literal is spaced as the expression around it is; in a condition
and where it is printed it is kept. The headers of counting loops and of functions have no literals.
-/

namespace Courtesy

open Text Statement

/-! ## Expressions without texts -/

namespace Expression

theorem HasRole.eq_string {atom : String} {role : Role} (hrole : HasRole atom role) {cs : List Char}
    (h : atom.toList = '"' :: cs) : role = .string := by
  have hquote : '"' ∈ atom.toList := by
    rw [h]
    exact List.mem_cons_self
  cases hrole with
  | string => rfl
  | number hn => exact absurd (chars_of_isNumber (Literal.isNumber_iff.2 hn) _ hquote) (by decide)
  | boolean hb =>
    simp only [Vocabulary.isBoolean, Bool.or_eq_true, beq_iff_eq] at hb
    rcases hb with rfl | rfl <;> exact absurd hquote (by decide)
  | name hx _ => exact absurd (Literal.isWordChar_of_isIdentifier hx _ hquote) (by decide)
  | _ => exact absurd hquote (by decide)

/-- A string fits into a text alone. -/
theorem Passes.stringless {vars : Variables} {expected : ValueType} (hexpected : expected ≠ .text)
    {sign : Bool} {operands : Nat} {atoms : List String} {roles : List Role} {narrows : Bool}
    (h : Passes vars expected sign operands atoms roles narrows) :
    ∀ atom ∈ atoms, role? atom ≠ some .string := by
  induction h with
  | nil => exact List.forall_mem_nil _
  | negated hn _ _ ih =>
    refine List.forall_mem_cons.2 ⟨by decide, List.forall_mem_cons.2 ⟨?_, ih⟩⟩
    rw [(HasRole.number hn).role?]
    decide
  | token _ hrole hpass _ ih =>
    refine List.forall_mem_cons.2 ⟨?_, ih⟩
    rw [hrole.role?]
    rintro ⟨⟩
    obtain ⟨_, hadmit, _⟩ := except_bind_ok.1 hpass
    unfold admitString at hadmit
    split at hadmit
    · exact hexpected rfl
    · cases hadmit
    · cases hadmit

/-- An expression of any type but text quotes nothing. -/
theorem quoted_of_check {vars : Variables} {expr : String} {expected : ValueType}
    (hexpected : expected ≠ .text) {e : Expression} (hc : Closed expr.toList)
    (h : check vars expr expected = .ok e) : quoted expr.toList = [] := by
  have hatoms : ∀ atom ∈ cut expr, quoted atom.toList = [] := by
    intro atom ha
    have hwhole := whole_of_mem_cut hc ha
    generalize hcs : atom.toList = cs at hwhole
    cases hwhole with
    | plain hp => exact quoted_plain hp
    | literal hb =>
      obtain ⟨hcut, roles, haccepted⟩ := check_accepted h
      rw [← hcut] at ha
      obtain ⟨role, hrole⟩ := haccepted.passes.hasRole atom ha
      obtain rfl := hrole.eq_string hcs
      exact absurd hrole.role? (haccepted.passes.stringless hexpected atom ha)
  have hcut := flatMap_quoted_cut hc
  rw [List.flatMap_eq_nil_iff.2 hatoms] at hcut
  exact List.map_eq_nil_iff.1 hcut.symm

end Expression

/-! ## Statements -/

namespace Statement

/-- What becomes of a literal in a line that is led by a word or phrase of a kind. -/
def spacing (lead : Kind) : List Char → List Char :=
  if lead ∈ [Kind.create, .identifier, .giveBack, .call] then Expression.respace false else id

/-- Code that quotes what the tokens quote, with each segment changed by `f`. -/
structure Quotes (f : List Char → List Char) (ts : List Token) (code : List String) : Prop where
  closed : ∀ line ∈ code, Closed line.toList
  quoted : code.flatMap (Text.quoted ·.toList) = (ts.flatMap (Text.quoted ·.text.toList)).map f

section

variable {ts : List Token} {f : List Char → List Char}

theorem flatMap_quoted_eq_nil (hts : ∀ t ∈ ts, t.Sound) (hk : ∀ t ∈ ts, t.kind ≠ .string) :
    ts.flatMap (quoted ·.text.toList) = [] :=
  List.flatMap_eq_nil_iff.2 fun t ht => quoted_plain ((hts t ht).plain (hk t ht))

theorem Quotes.headed {head : String} (h : Quotes f ts [head]) : Quotes f ts (headed head) := by
  have hbrace : Plain "\x7b".toList := by decide
  refine ⟨?_, ?_⟩
  · intro line hline
    rcases List.mem_cons.1 hline with rfl | hline
    · exact h.closed line List.mem_cons_self
    · rw [List.mem_singleton.1 hline]
      exact .plain hbrace
  · rw [← h.quoted, Statement.headed, List.flatMap_cons, List.flatMap_singleton,
      List.flatMap_singleton, quoted_plain hbrace, List.append_nil]

/-- Code without quotes for tokens without strings. -/
theorem quotes_plain {line : String} (hts : ∀ t ∈ ts, t.Sound) (hk : ∀ t ∈ ts, t.kind ≠ .string)
    (hline : Plain line.toList) : Quotes f ts [line] := by
  refine ⟨by simpa using Closed.plain hline, ?_⟩
  rw [List.flatMap_singleton, quoted_plain hline, flatMap_quoted_eq_nil hts hk]
  rfl

/-- Code between texts without quotes. -/
theorem quotes_between {before code behind : String} (hb : Plain before.toList)
    (ha : Plain behind.toList) (hc : Closed code.toList)
    (hq : quoted code.toList = (ts.flatMap (quoted ·.text.toList)).map f) :
    Quotes f ts [before ++ code ++ behind] := by
  have hclosed : Closed (before.toList ++ code.toList) := .append (.plain hb) hc
  refine ⟨?_, ?_⟩
  · intro line hline
    rw [List.mem_singleton.1 hline, String.toList_append, String.toList_append]
    exact hclosed.append (.plain ha)
  · rw [List.flatMap_singleton, String.toList_append, String.toList_append, quoted_append hclosed,
      quoted_plain_append hb, quoted_plain ha, List.append_nil, hq]

/-! ### Printed values -/

variable {scope : Scope} {lead : Token} {o : Opening}

theorem printedValues_quoted {values : List String} (hts : ∀ t ∈ ts, t.Sound)
    (h : printedValues scope ts = .ok values) :
    (∀ v ∈ values, Closed v.toList) ∧
      values.flatMap (quoted ·.toList) = ts.flatMap (quoted ·.text.toList) := by
  induction ts using printedValues.induct generalizing values with
  | case1 => cases h
  | case2 t =>
    rw [printedValues] at h
    obtain ⟨-, -, h⟩ := except_bind_ok.1 h
    cases h
    refine ⟨by simpa using (hts t List.mem_cons_self).closed, ?_⟩
    rw [List.flatMap_singleton, List.flatMap_singleton]
  | case3 t sep rest ih =>
    rw [printedValues] at h
    obtain ⟨-, -, h⟩ := except_bind_ok.1 h
    split at h
    · cases h
    · rename_i hsep
      obtain ⟨more, hmore, h⟩ := except_bind_ok.1 h
      cases h
      obtain ⟨hclosed, hquoted⟩ := ih (fun u hu => hts u (by simp [hu])) hmore
      have hadd : quoted sep.text.toList = [] := by
        rw [Decidable.not_not.1 hsep]
        exact quoted_plain (by decide)
      have hplus : Plain "+".toList := by decide
      refine ⟨?_, ?_⟩
      · exact List.forall_mem_cons.2 ⟨(hts t List.mem_cons_self).closed,
          List.forall_mem_cons.2 ⟨.plain hplus, hclosed⟩⟩
      · rw [List.flatMap_cons, List.flatMap_cons, List.flatMap_cons, List.flatMap_cons, hadd,
          quoted_plain hplus, hquoted]

theorem printStatement_quotes {line : String} (hts : ∀ t ∈ lead :: ts, t.Sound)
    (hk : lead.kind = .print) (h : printStatement scope (lead :: ts) = .ok line) :
    Quotes id (lead :: ts) [line] := by
  obtain ⟨_, _, values, htokens, hvalues, rfl⟩ := printStatement_ok h
  cases htokens
  obtain ⟨hclosed, hquoted⟩ :=
    printedValues_quoted (fun t ht => hts t (List.mem_cons_of_mem lead ht)) hvalues
  have hspace : Plain " ".toList := by decide
  have hlead := (hts lead List.mem_cons_self).plain (by rw [hk]; decide)
  refine quotes_between (by decide) (by decide) (closed_intercalate hspace hclosed) ?_
  rw [spaced, additive_quoted.intercalate hspace (quoted_plain hspace) hclosed, hquoted,
    List.flatMap_cons, quoted_plain hlead, List.nil_append, List.map_id]

/-! ### Conditions -/

theorem condition_quoted {header : Header} {cond : String} (hts : ∀ t ∈ ts, t.Sound)
    (h : condition scope header ts = .ok cond) :
    Closed cond.toList ∧ quoted cond.toList = ts.flatMap (quoted ·.text.toList) := by
  unfold condition at h
  split at h
  · cases h
  · dsimp only at h
    split at h
    · cases h
    · cases h
      have hjoin : Closed (Token.join ts).toList :=
        closed_intercalate (by decide) (Token.closed_join hts)
      obtain ⟨hclosed, hquoted⟩ := Target.lower_closed hjoin
      exact ⟨hclosed, hquoted.trans (Token.quoted_join hts)⟩

theorem headerTokens_quoted {header : Header} {start : Nat} {tokens inner : List Token}
    (hts : ∀ t ∈ tokens, t.Sound) (hstart : ∀ t ∈ tokens.take start, t.kind ≠ .string)
    (h : headerTokens header start tokens = .ok inner) :
    (∀ t ∈ inner, t.Sound) ∧
      tokens.flatMap (quoted ·.text.toList) = inner.flatMap (quoted ·.text.toList) := by
  obtain ⟨before, brace, rfl, hbrace, hbefore⟩ := headerTokens_split h
  refine ⟨fun t ht => hts t (by simp [ht]), ?_⟩
  have hquiet := flatMap_quoted_eq_nil (fun t ht => hts t (List.mem_append_left _ ht))
    fun t ht => hstart t (hbefore ht)
  have hplain := (hts brace (by simp)).plain (by rw [hbrace]; decide)
  rw [List.flatMap_append, List.flatMap_append, hquiet, List.flatMap_singleton,
    quoted_plain hplain, List.nil_append, List.append_nil]

theorem ifStatement_quotes (hts : ∀ t ∈ lead :: ts, t.Sound) (hk : lead.kind = .check)
    (h : ifStatement scope (lead :: ts) = .ok o) : Quotes id (lead :: ts) o.code := by
  unfold ifStatement at h
  obtain ⟨inner, hinner, h⟩ := except_bind_ok.1 h
  obtain ⟨cond, hcond, h⟩ := except_bind_ok.1 h
  cases h
  have hstart : ∀ t ∈ (lead :: ts).take 1, t.kind ≠ .string := by simp [hk]
  obtain ⟨hsound, hheader⟩ := headerTokens_quoted hts hstart hinner
  obtain ⟨hclosed, hquoted⟩ := condition_quoted hsound hcond
  refine (quotes_between (by decide) (by decide) hclosed ?_).headed
  rw [hquoted, hheader, List.map_id]

theorem whileLoop_quotes (hts : ∀ t ∈ lead :: ts, t.Sound) (hk : lead.kind = .loop)
    (h : whileLoop scope (lead :: ts) = .ok o) : Quotes id (lead :: ts) o.code := by
  unfold whileLoop at h
  split at h
  · cases h
  · rename_i hindex
    obtain ⟨second, hsecond, hwhile⟩ := exists_kind_of_index? (Decidable.not_not.1 hindex)
    obtain ⟨inner, hinner, h⟩ := except_bind_ok.1 h
    obtain ⟨cond, hcond, h⟩ := except_bind_ok.1 h
    cases h
    cases ts with
    | nil => cases hsecond
    | cons second ts =>
      cases hsecond
      have hstart : ∀ t ∈ (lead :: second :: ts).take 2, t.kind ≠ .string := by simp [hk, hwhile]
      obtain ⟨hsound, hheader⟩ := headerTokens_quoted hts hstart hinner
      obtain ⟨hclosed, hquoted⟩ := condition_quoted hsound hcond
      refine (quotes_between (by decide) (by decide) hclosed ?_).headed
      rw [hquoted, hheader, List.map_id]

/-! ### Headers without literals -/

/-- A value of any type but text is code without quotes, of tokens without strings. -/
theorem value_plain {place : Place} {expected : ValueType} {code : String}
    (hexpected : expected ≠ .text) (hts : ∀ t ∈ ts, t.Sound)
    (h : value scope place (Token.join ts) expected = .ok code) :
    Plain code.toList ∧ ∀ t ∈ ts, t.kind ≠ .string := by
  obtain ⟨e, he, -⟩ := value_ok h
  have hjoin : Closed (Token.join ts).toList :=
    closed_intercalate (by decide) (Token.closed_join hts)
  have hquiet : ts.flatMap (quoted ·.text.toList) = [] := by
    rw [← Token.quoted_join hts]
    exact Expression.quoted_of_check hexpected hjoin he
  refine ⟨?_, fun t ht hk => ?_⟩
  · have hrendered := value_rendered hts h
    refine hrendered.closed.plain_of_quoted ?_
    rw [hrendered.quoted, hquiet]
    rfl
  · rcases (hts t ht).shape with ⟨-, body, hb, htext⟩ | ⟨hno, -⟩
    · have hplain := (hts t ht).closed.plain_of_quoted (List.flatMap_eq_nil_iff.1 hquiet t ht)
      rw [htext] at hplain
      exact (plain_cons.1 hplain).1 rfl
    · exact hno hk

theorem forLoop_quotes (hts : ∀ t ∈ lead :: ts, t.Sound) (hk : lead.kind = .loop)
    (h : forLoop scope (lead :: ts) = .ok o) : Quotes id (lead :: ts) o.code := by
  obtain ⟨first, last, lo, hi, hmem, hcases, hlo, hhi, hcode⟩ := forLoop_bounds h
  obtain ⟨hplo, hfirst⟩ :=
    value_plain (by decide) (fun t ht => hts t (hmem t (List.mem_append_left _ ht))) hlo
  obtain ⟨hphi, hlast⟩ :=
    value_plain (by decide) (fun t ht => hts t (hmem t (List.mem_append_right _ ht))) hhi
  have hkinds : ∀ t ∈ lead :: ts, t.kind ≠ .string := by
    intro t ht
    rcases hcases t ht with hlead | hbound | hkind
    · cases hlead
      rw [hk]
      decide
    · exact (List.mem_append.1 hbound).elim (hfirst t) (hlast t)
    · intro hstring
      rw [hstring] at hkind
      exact absurd hkind (by decide)
  rw [hcode]
  refine (quotes_plain hts hkinds ?_).headed
  simp only [String.toList_append, plain_append, hplo, hphi]
  decide

theorem methodHead_plain {f : Signature} (hname : Plain f.name.toList)
    (hparams : ∀ p ∈ f.params, Plain p.name.toList) : Plain (methodHead f).toList := by
  have hdecl : ∀ decl ∈ f.params.map fun p => p.type.target ++ " " ++ p.name,
      Plain decl.toList := by
    intro decl hdecl
    obtain ⟨p, hp, rfl⟩ := List.mem_map.1 hdecl
    simp [plain_append, plain_cons, target_plain, hparams p hp]
  have hlist : Plain (", ".intercalate (f.params.map fun p =>
      p.type.target ++ " " ++ p.name)).toList := plain_intercalate (by decide) hdecl
  rw [methodHead_eq]
  simp only [String.toList_append, plain_append, target_plain, hlist,
    Target.methodName_plain hname]
  decide

theorem definition_quotes {st : State} (hts : ∀ t ∈ lead :: ts, t.Sound)
    (hk : lead.kind = .define) (h : (definition st (lead :: ts)).2 = .ok o) :
    Quotes id (lead :: ts) o.code := by
  obtain ⟨header, hheader, -, hfault, -, rfl⟩ := definition_ok h
  obtain ⟨hkinds, hnames⟩ := params_kinds hfault
  obtain ⟨_, result, name, paren, close, brace, htokens, hresult, hname, hparen, hclose, hbrace,
    hn, -⟩ := functionHeader_iff.1 hheader
  cases htokens
  have hparam : ∀ t ∈ header.paramTokens, t.kind ≠ .string := by
    intro t ht hstring
    have hkind := hkinds t ht
    rw [hstring] at hkind
    exact absurd hkind (by decide)
  have hstringless : ∀ t ∈ lead :: result :: name :: paren ::
      (header.paramTokens ++ [close, brace]), t.kind ≠ .string := by
    simp only [List.forall_mem_cons, List.forall_mem_append, hk, hresult, hname, hparen, hclose,
      hbrace]
    exact ⟨by decide, by decide, by decide, by decide, hparam, by decide, by decide, by simp⟩
  refine (quotes_plain hts hstringless (methodHead_plain ?_ fun p hp => ?_)).headed
  · rw [hn]
    exact (hts name (by simp)).plain (by rw [hname]; decide)
  · obtain ⟨t, ht, hidentifier, htext⟩ := hnames p hp
    rw [← htext]
    exact (hts t (by simp [ht])).plain (by rw [hidentifier]; decide)

/-- The code of an accepted statement quotes what its tokens quote. -/
theorem Performed.quotes {st st' : State} {first : Token} {rest : List Token}
    (hts : ∀ t ∈ first :: rest, t.Sound)
    (h : Performed st (first :: rest) first.kind ⟨st', .ok o⟩) :
    Quotes (spacing first.kind) (first :: rest) o.code := by
  by_cases hk : first.kind ∈ [Kind.create, .identifier, .giveBack, .call]
  · obtain ⟨line, hline, hrendered⟩ := h.rendered hts hk
    rw [hline, spacing, if_pos hk]
    refine ⟨by simpa using hrendered.closed, ?_⟩
    rw [List.flatMap_singleton, hrendered.quoted]
  · rw [spacing, if_neg hk]
    generalize hkind : first.kind = kind at h hk
    generalize hout : (⟨st', .ok o⟩ : Outcome) = outcome at h
    cases h with
    | printed hok =>
      cases hout
      exact printStatement_quotes hts hkind hok
    | looped hok =>
      cases hout
      rcases loop_ok hok with hfor | ⟨hwhile, -⟩
      · exact forLoop_quotes hts hkind hfor
      · exact whileLoop_quotes hts hkind hwhile
    | checked hok =>
      cases hout
      exact ifStatement_quotes hts hkind hok
    | defined =>
      simp only [Outcome.mk.injEq] at hout
      exact definition_quotes hts hkind hout.2.symm
    | refused => cases hout
    | _ => exact absurd (by decide) hk

end

end Statement

end Courtesy
