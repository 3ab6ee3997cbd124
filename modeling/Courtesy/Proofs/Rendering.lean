import Courtesy.Proofs.Expressions
import Courtesy.Proofs.Steps

/-!
# From tokens to code

`Rendered` ties the code of a value, a call or a statement to the tokens that it was read from: no
quote is left open, what the code quotes is what the tokens quote, and none of the tokens opens a
block. An accepted declaration, assignment, return or call renders all of its tokens
(`Performed.rendered`).
-/

namespace Courtesy

open Text

namespace Token

theorem Sound.plain {t : Token} (h : t.Sound) (hk : t.kind ≠ .string) : Plain t.text.toList := by
  rcases h.shape with h | h
  · exact absurd h.1 hk
  · exact h.2

theorem Sound.closed {t : Token} (h : t.Sound) : Closed t.text.toList := by
  rcases h.shape with ⟨-, body, hb, htext⟩ | ⟨-, hp⟩
  · rw [htext]
    exact closed_literal hb
  · exact .plain hp

section

variable {ts : List Token}

theorem closed_join (hts : ∀ t ∈ ts, t.Sound) : ∀ s ∈ texts ts, Closed s.toList := by
  intro s hs
  obtain ⟨t, ht, rfl⟩ := List.mem_map.1 hs
  exact (hts t ht).closed

theorem quoted_join (hts : ∀ t ∈ ts, t.Sound) :
    quoted (join ts).toList = ts.flatMap (quoted ·.text.toList) := by
  have hspace : Plain " ".toList := by decide
  rw [join, spaced, additive_quoted.intercalate hspace (quoted_plain hspace) (closed_join hts),
    texts, List.flatMap_map]

/-- Spaces apart, the joined text holds outside of quotes what the tokens hold there. -/
theorem mem_bare_join_iff (hts : ∀ t ∈ ts, t.Sound) {c : Char} (hc : c ≠ ' ') :
    c ∈ bare (join ts).toList ↔ ∃ t ∈ ts, c ∈ bare t.text.toList := by
  have hspace : Plain " ".toList := by decide
  have hnone : (bare " ".toList).filter (· == c) = [] := by
    rw [bare_plain hspace]
    simp [Ne.symm hc]
  have hfilter := (additive_filter_bare c).intercalate hspace hnone (closed_join hts)
  have hmem : ∀ cs : List Char, c ∈ cs.filter (· == c) ↔ c ∈ cs := by simp
  rw [← hmem, join, spaced, hfilter, texts, List.flatMap_map, List.mem_flatMap]
  simp only [hmem]

theorem mem_bare_join (hts : ∀ t ∈ ts, t.Sound) {t : Token} (ht : t ∈ ts)
    (hk : t.kind = .openBrace) : '{' ∈ bare (join ts).toList := by
  refine (mem_bare_join_iff hts (by decide)).2 ⟨t, ht, ?_⟩
  rw [text_of_openBrace ((hts t ht).valid.1.symm.trans hk)]
  decide

end

end Token

theorem Target.toList_indent (level : Nat) :
    (indent level).toList = List.replicate (4 * level) ' ' := by
  induction level with
  | zero => rfl
  | succ level ih =>
    have hstep : indent (level + 1) = indentUnit ++ indent level := by
      simp [indent, List.replicate_succ]
    rw [hstep, String.toList_append, ih, Nat.mul_succ, Nat.add_comm,
      ← List.replicate_append_replicate]
    rfl

theorem Target.indent_plain (level : Nat) : Plain (indent level).toList := by
  rw [toList_indent]
  intro hm
  exact absurd (List.mem_replicate.1 hm).2 (by decide)

theorem Target.methodName_plain {name : String} (h : Plain name.toList) :
    Plain (methodName name).toList := by
  unfold methodName
  split
  · decide
  · exact h

namespace Statement

/-- Code that stands for tokens. -/
structure Rendered (ts : List Token) (code : String) : Prop where
  closed : Closed code.toList
  quoted : quoted code.toList =
    (ts.flatMap (Text.quoted ·.text.toList)).map (Expression.respace false)
  braceless : ∀ t ∈ ts, t.kind ≠ .openBrace

section Rendered

variable {ts : List Token} {code : String}

/-- Code behind a text without quotes. -/
theorem Rendered.prepend (h : Rendered ts code) {before : String} (hb : Plain before.toList) :
    Rendered ts (before ++ code) := by
  refine ⟨?_, ?_, h.braceless⟩
  · rw [String.toList_append]
    exact .append (.plain hb) h.closed
  · rw [String.toList_append, quoted_plain_append hb, h.quoted]

/-- Code in front of a text without quotes. -/
theorem Rendered.append (h : Rendered ts code) {behind : String} (hb : Plain behind.toList) :
    Rendered ts (code ++ behind) := by
  refine ⟨?_, ?_, h.braceless⟩
  · rw [String.toList_append]
    exact h.closed.append (.plain hb)
  · rw [String.toList_append, quoted_append h.closed, quoted_plain hb, List.append_nil, h.quoted]

/-- More tokens around, of which none is a string or a brace. -/
theorem Rendered.around (h : Rendered ts code) (before behind : List Token)
    (hsound : ∀ t ∈ before ++ behind, t.Sound)
    (hkinds : ∀ t ∈ before ++ behind, t.kind ∉ [Kind.string, .openBrace]) :
    Rendered (before ++ ts ++ behind) code := by
  have hquiet : ∀ t ∈ before ++ behind, Text.quoted t.text.toList = [] := by
    intro t ht
    refine quoted_plain ((hsound t ht).plain fun hk => hkinds t ht ?_)
    rw [hk]
    decide
  have hbefore : before.flatMap (Text.quoted ·.text.toList) = [] :=
    List.flatMap_eq_nil_iff.2 fun t ht => hquiet t (List.mem_append_left _ ht)
  have hbehind : behind.flatMap (Text.quoted ·.text.toList) = [] :=
    List.flatMap_eq_nil_iff.2 fun t ht => hquiet t (List.mem_append_right _ ht)
  refine ⟨h.closed, ?_, ?_⟩
  · rw [h.quoted, List.flatMap_append, List.flatMap_append, hbefore, hbehind, List.nil_append,
      List.append_nil]
  · intro t ht
    have other (ht : t ∈ before ++ behind) : t.kind ≠ .openBrace := by
      intro hk
      exact hkinds t ht (by rw [hk]; decide)
    rw [List.mem_append, List.mem_append] at ht
    rcases ht with (ht | ht) | ht
    · exact other (List.mem_append_left _ ht)
    · exact h.braceless t ht
    · exact other (List.mem_append_right _ ht)

/-- More tokens in front. -/
theorem Rendered.after (h : Rendered ts code) (before : List Token) (hsound : ∀ t ∈ before, t.Sound)
    (hkinds : ∀ t ∈ before, t.kind ∉ [Kind.string, .openBrace]) : Rendered (before ++ ts) code := by
  have := h.around before [] (by rwa [List.append_nil])
    (by rwa [List.append_nil])
  rwa [List.append_nil] at this

theorem rendered_nil (h : Plain code.toList) : Rendered [] code :=
  ⟨.plain h, quoted_plain h, by simp⟩

/-! ## Values and calls -/

theorem value_rendered {scope : Scope} {place : Place} {expected : ValueType}
    (hts : ∀ t ∈ ts, t.Sound) (h : value scope place (Token.join ts) expected = .ok code) :
    Rendered ts code := by
  obtain ⟨e, he, hcode⟩ := value_ok h
  have hjoin : Closed (Token.join ts).toList :=
    closed_intercalate (by decide) (Token.closed_join hts)
  have hatoms := (Expression.check_accepted he).1
  have hwhole : ∀ atom ∈ e.atoms, Closed atom.toList := by
    rw [hatoms]
    intro atom ha
    exact (Expression.whole_of_mem_cut hjoin ha).closed
  have hspace : Plain " ".toList := by decide
  have htext : Closed e.text.toList := closed_intercalate hspace hwhole
  have hlower : Rendered ts (Target.lower e.text) := by
    obtain ⟨hclosed, hquoted⟩ := Target.lower_closed htext
    refine ⟨hclosed, ?_, ?_⟩
    · rw [hquoted, Expression.text, spaced,
        additive_quoted.intercalate hspace (quoted_plain hspace) hwhole, hatoms,
        Expression.flatMap_quoted_cut hjoin, Token.quoted_join hts]
    · intro t ht hk
      exact Expression.not_mem_bare_of_check hjoin he (Token.mem_bare_join hts ht hk)
  rcases hcode with rfl | rfl
  · exact hlower
  · exact (hlower.prepend (by decide)).append (by decide)

theorem argumentCodes_rendered {scope : Scope} {f : Signature} {args : List (List Token)}
    {ps : List Param} {codes : List String} (hlen : args.length = ps.length)
    (hts : ∀ t ∈ args.flatten, t.Sound)
    (h : ((args.zip ps).mapM fun (arg, p) =>
      value scope (.argument p.name f.name) (Token.join arg) p.type) = .ok codes) :
    Rendered args.flatten (", ".intercalate codes) := by
  have hsep : Plain ", ".toList := by decide
  suffices hall : (∀ code ∈ codes, Closed code.toList) ∧
      codes.flatMap (Text.quoted ·.toList) =
        (args.flatten.flatMap (Text.quoted ·.text.toList)).map (Expression.respace false) ∧
      ∀ t ∈ args.flatten, t.kind ≠ .openBrace by
    refine ⟨closed_intercalate hsep hall.1, ?_, hall.2.2⟩
    rw [additive_quoted.intercalate hsep (quoted_plain hsep) hall.1, hall.2.1]
  induction args generalizing ps codes with
  | nil =>
    cases h
    simp
  | cons arg args ih =>
    cases ps with
    | nil => cases hlen
    | cons p ps =>
      rw [List.zip_cons_cons, List.mapM_cons] at h
      obtain ⟨code, hcode, h⟩ := except_bind_ok.1 h
      obtain ⟨more, hmore, h⟩ := except_bind_ok.1 h
      cases h
      rw [List.flatten_cons] at hts ⊢
      have hfirst := value_rendered (fun t ht => hts t (List.mem_append_left _ ht)) hcode
      obtain ⟨hclosed, hquoted, hbrace⟩ := ih (Nat.succ.inj hlen)
        (fun t ht => hts t (List.mem_append_right _ ht)) hmore
      refine ⟨List.forall_mem_cons.2 ⟨hfirst.closed, hclosed⟩, ?_, ?_⟩
      · rw [List.flatMap_cons, hfirst.quoted, hquoted, List.flatMap_append, List.map_append]
      · intro t ht
        rcases List.mem_append.1 ht with ht | ht
        · exact hfirst.braceless t ht
        · exact hbrace t ht

/-- The arguments render what stands between the parentheses, commas included. -/
theorem arguments_rendered {args : List (List Token)} (hts : ∀ t ∈ ts, t.Sound)
    (hargs : arguments? ts = some args) (h : Rendered args.flatten code) : Rendered ts code := by
  refine ⟨h.closed, ?_, ?_⟩
  · rw [h.quoted, flatMap_arguments? ?_ hargs]
    intro t ht hk
    exact quoted_plain ((hts t ht).plain (by rw [hk]; decide))
  · intro t ht hk
    have hflat := flatMap_arguments? (f := fun u => if u.kind = .comma then [] else [u])
      (fun u _ hu => by rw [if_pos hu]) hargs
    have hin : t ∈ ts.flatMap fun u => if u.kind = .comma then [] else [u] :=
      List.mem_flatMap.2 ⟨t, ht, by simp [hk]⟩
    rw [← hflat] at hin
    obtain ⟨u, hu, hin⟩ := List.mem_flatMap.1 hin
    split at hin
    · cases hin
    · rw [List.mem_singleton.1 hin] at hk
      exact h.braceless u hu hk

theorem call_rendered {scope : Scope} {c : Call} (hts : ∀ t ∈ ts, t.Sound)
    (h : call scope ts = .ok c) : Rendered ts c.code := by
  obtain ⟨name, opening, body, closing, args, codes, rfl, hname, hopening, hclosing, -, hargs, hlen,
    hcodes, hcode⟩ := call_ok h
  have hbody : ∀ t ∈ body, t.Sound := fun t ht => hts t (by simp [ht])
  have hflat := argumentCodes_rendered hlen
    (fun t ht => hbody t ((arguments?_sublist hargs).subset ht)) hcodes
  have hname' : Plain (Target.methodName name.text ++ "(").toList := by
    rw [String.toList_append]
    refine plain_append.2 ⟨Target.methodName_plain ?_, by decide⟩
    exact (hts name (by simp)).plain (by rw [hname]; decide)
  have hinner : Rendered body c.code := by
    rw [hcode]
    exact ((arguments_rendered hbody hargs hflat).prepend hname').append (by decide)
  have hkinds : ∀ t ∈ [name, opening] ++ [closing], t.kind ∉ [Kind.string, .openBrace] := by
    simp [hname, hopening, hclosing]
  exact hinner.around [name, opening] [closing]
    (fun t ht => hts t (by grind)) hkinds

theorem valueOrCall_rendered {scope : Scope} {place : Place} {receiver : Receiver}
    {expected : ValueType} {first : Token} {rest : List Token}
    (hts : ∀ t ∈ first :: rest, t.Sound)
    (h : valueOrCall scope place receiver expected first rest = .ok code) :
    Rendered (first :: rest) code := by
  rcases valueOrCall_ok h with ⟨hk, c, hc, hcode⟩ | ⟨-, hvalue⟩
  · have hcall := call_rendered (fun t ht => hts t (List.mem_cons_of_mem first ht)) hc
    have hall : Rendered (first :: rest) c.code :=
      hcall.after [first] (by simpa using hts first List.mem_cons_self) (by simp [hk])
    rcases hcode with rfl | rfl
    · exact hall
    · exact hall.prepend (by decide)
  · exact value_rendered hts hvalue

end Rendered

/-! ## Statements -/

section

variable {st st' : State} {tokens : List Token} {line : String}

theorem target_plain (type : ValueType) : Plain type.target.toList := by
  cases type <;> decide

theorem declaration_rendered {scope scope' : Scope} (hts : ∀ t ∈ tokens, t.Sound)
    (hk : ∀ t, tokens.head? = some t → t.kind = .create)
    (h : declaration scope tokens = .ok (scope', line)) : Rendered tokens line := by
  obtain ⟨lead, typeToken, name, rest, initial, rfl, htype, hname, -, -, -, hinitial, -, rfl⟩ :=
    declaration_ok h
  have hlead := hk lead rfl
  have hplain : Plain (name.text.toList) := (hts name (by simp)).plain (by rw [hname]; decide)
  generalize (ValueType.ofName? typeToken.text).getD .invalid = type at hinitial ⊢
  have hdecl : Plain (type.target ++ " " ++ name.text).toList := by
    simp [plain_append, plain_cons, target_plain, hplain]
  rcases initialValue_ok hinitial with ⟨rfl, rfl⟩ | ⟨eq, first, more, code, rfl, heq, hcode, rfl⟩
  · have hline : Rendered [] (type.target ++ " " ++ name.text ++ ";") :=
      (rendered_nil hdecl).append (by decide)
    exact hline.after [lead, typeToken, name] hts (by simp [hlead, htype, hname])
  · have hvalue := valueOrCall_rendered (fun t ht => hts t (by grind)) hcode
    have hline : Rendered (first :: more)
        (type.target ++ " " ++ name.text ++ (" = " ++ code ++ ";")) :=
      ((hvalue.prepend (by decide)).append (by decide)).prepend hdecl
    exact hline.after [lead, typeToken, name, eq] (fun t ht => hts t (by grind))
      (by simp [hlead, htype, hname, heq])

theorem assignment_rendered {scope : Scope} (hts : ∀ t ∈ tokens, t.Sound)
    (hk : ∀ t, tokens.head? = some t → t.kind = .identifier)
    (h : assignment scope tokens = .ok line) : Rendered tokens line := by
  obtain ⟨name, eq, first, rest, type, code, rfl, heq, -, hcode, rfl⟩ := assignment_ok h
  have hname := hk name rfl
  have hvalue := valueOrCall_rendered (fun t ht => hts t (by grind)) hcode
  have hplain : Plain (name.text.toList) := (hts name (by simp)).plain (by rw [hname]; decide)
  have hline : Rendered (first :: rest) (name.text ++ " = " ++ code ++ ";") :=
    (hvalue.prepend (by simp [plain_append, plain_cons, hplain])).append (by decide)
  exact hline.after [name, eq] (fun t ht => hts t (by grind)) (by simp [hname, heq])

theorem returnStatement_rendered {lead : Token} {rest : List Token}
    (hts : ∀ t ∈ lead :: rest, t.Sound) (hk : lead.kind = .giveBack)
    (h : returnStatement st (lead :: rest) = .ok (st', line)) : Rendered (lead :: rest) line := by
  have hlead : Rendered rest line → Rendered (lead :: rest) line := fun hr =>
    hr.after [lead] (by simpa using hts lead List.mem_cons_self) (by simp [hk])
  refine hlead ?_
  rcases (returnStatement_ok h).2 with ⟨hrest, rfl⟩ | ⟨first, more, type, code, hrest, hcode, rfl⟩
  · obtain rfl : rest = [] := hrest
    exact rendered_nil (by decide)
  · obtain rfl : rest = first :: more := hrest
    have hvalue := valueOrCall_rendered (fun t ht => hts t (List.mem_cons_of_mem lead ht)) hcode
    exact (hvalue.prepend (by decide)).append (by decide)

theorem callStatement_rendered {scope : Scope} {lead : Token} {rest : List Token}
    (hts : ∀ t ∈ lead :: rest, t.Sound) (hk : lead.kind = .call)
    (h : callStatement scope (lead :: rest) = .ok line) : Rendered (lead :: rest) line := by
  obtain ⟨c, hc, rfl⟩ := callStatement_ok h
  have hcall := call_rendered (fun t ht => hts t (List.mem_cons_of_mem lead ht)) hc
  have hline : Rendered rest (c.code ++ ";") := hcall.append (by decide)
  exact hline.after [lead] (by simpa using hts lead List.mem_cons_self) (by simp [hk])

/-- An accepted declaration, assignment, return or call renders all of its tokens. -/
theorem Performed.rendered {first : Token} {rest : List Token} {o : Opening}
    (hts : ∀ t ∈ first :: rest, t.Sound)
    (hk : first.kind ∈ [Kind.create, .identifier, .giveBack, .call])
    (h : Performed st (first :: rest) first.kind ⟨st', .ok o⟩) :
    ∃ line, o.code = [line] ∧ Rendered (first :: rest) line := by
  generalize hkind : first.kind = kind at h hk
  generalize ho : (⟨st', .ok o⟩ : Outcome) = outcome at h
  have hhead : ∀ t, (first :: rest).head? = some t → t.kind = kind := by
    rintro t ⟨⟩
    exact hkind
  cases h with
  | created hok =>
    cases ho
    exact ⟨_, rfl, declaration_rendered hts hhead hok⟩
  | assigned hok =>
    cases ho
    exact ⟨_, rfl, assignment_rendered hts hhead hok⟩
  | called hok =>
    cases ho
    exact ⟨_, rfl, callStatement_rendered hts hkind hok⟩
  | returned hok =>
    cases ho
    exact ⟨_, rfl, returnStatement_rendered hts hkind hok⟩
  | refused => cases ho
  | _ => exact absurd hk (by decide)

end

end Statement

end Courtesy
