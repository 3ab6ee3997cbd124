import Courtesy.Proofs.Agreement
import Courtesy.Proofs.Relayout

/-!
# Categories do not depend on what strings say

Two programs that differ in the contents of their string literals are refused alike: each line leads
to diagnostics of the same categories (`category_requoted`). The category of a value's fault is read
off a wording that may quote literals, so that their contents have to agree in the hints they give;
where they do not, the category can change (`category_told_by_literal`).

One lemma for each function of a statement says that it ends alike for tokens that differ in
literals (`Token.Swapped`); `perform_swapped` puts them together. A literal leaves no trace in the
state, so the two translations are in the same state before every line (`Run.before_requoted`), up
to the lines of source that the states keep.
-/

namespace Courtesy

open Text List Statement

/-! ## Tokens -/

namespace Token

theorem index?_swapped {ts ts' : List Token} (h : Forall₂ Swapped ts ts') (kind : Kind) :
    index? kind ts' = index? kind ts :=
  forall₂_findIdx? (fun t t' ht => by rw [ht.kind]) h

theorem ofLexeme_swapped {l l' : Lexeme} (h : Text.Swapped l.text l'.text) :
    Together (fun _ _ => True) Swapped (ofLexeme l) (ofLexeme l') := by
  unfold ofLexeme
  rw [h.classify_eq]
  exact .ite (fun _ => .error trivial) fun _ => .ok ⟨rfl, h, rfl⟩

theorem ofLine_requoted {s t : String} (h : Requoted s.toList t.toList) :
    Together (fun _ _ => True) (Forall₂ Swapped) (ofLine s) (ofLine t) := by
  have htokens := tokenize_requoted (trim_requoted h)
  unfold tokenize at htokens
  rw [forall₂_map_left_iff, forall₂_map_right_iff] at htokens
  exact .mapM htokens fun _ _ => ofLexeme_swapped

end Token

namespace Statement

/-- Faults of the same category. -/
def Fault.SameCategory (e e' : Fault) : Prop := e.category = e'.category

theorem Fault.SameCategory.refl (e : Fault) : e.SameCategory e := rfl

section

variable (scope : Scope) {ts ts' : List Token} (h : Forall₂ Token.Swapped ts ts')

/-! ## Values -/

theorem value_requoted (place : Place) {expr expr' : String}
    (h : Requoted expr.toList expr'.toList) (expected : ValueType) :
    Together Fault.SameCategory (fun _ _ => True) (value scope place expr expected)
      (value scope place expr' expected) := by
  have hcheck := Expression.check_requoted scope.visible h expected
  unfold value
  generalize Expression.check scope.visible expr expected = x,
    Expression.check scope.visible expr' expected = x' at hcheck ⊢
  cases hcheck with
  | error he => exact .error he
  | ok _ => exact .ok trivial

include h

theorem condition_swapped (header : Header) :
    Together Fault.SameCategory (fun _ _ => True) (condition scope header ts)
      (condition scope header ts') := by
  have hcheck := Condition.check_requoted scope.visible (Token.requoted_join h)
  unfold condition
  dsimp only
  rw [forall₂_isEmpty h]
  refine .ite (fun _ => .error rfl) fun _ => ?_
  generalize Condition.check scope.visible (Token.join ts) = x,
    Condition.check scope.visible (Token.join ts') = x' at hcheck ⊢
  cases hcheck with
  | error he => exact .error he
  | ok _ => exact .ok trivial

theorem closing?_swapped (depth : Nat) : closing? depth ts' = closing? depth ts := by
  induction h generalizing depth with
  | nil => rfl
  | cons ht _ ih => simp only [closing?, ht.kind, ih]

theorem segments_swapped (depth : Int) :
    Forall₂ (Forall₂ Token.Swapped) (segments depth ts) (segments depth ts') := by
  induction h generalizing depth with
  | nil => exact .cons .nil .nil
  | @cons t t' ts ts' ht _ ih =>
    have hdepth : depthChange t' = depthChange t := by rw [depthChange, depthChange, ht.kind]
    rw [segments, segments, ht.kind, hdepth]
    split
    · exact .cons .nil (ih depth)
    · have hrest := ih (depth + depthChange t)
      generalize segments (depth + depthChange t) ts = ss,
        segments (depth + depthChange t) ts' = ss' at hrest ⊢
      cases hrest with
      | nil => exact .cons (.cons ht .nil) .nil
      | cons hs hss => exact .cons (.cons ht hs) hss

theorem arguments?_swapped :
    Option.Rel (Forall₂ (Forall₂ Token.Swapped)) (arguments? ts) (arguments? ts') := by
  have hsegments := segments_swapped h 0
  have hany : (segments 0 ts').any List.isEmpty = (segments 0 ts).any List.isEmpty :=
    forall₂_any (p := List.isEmpty) (q := List.isEmpty)
      (fun _ _ hs => (forall₂_isEmpty hs).symm) hsegments
  unfold arguments?
  dsimp only
  rw [forall₂_isEmpty h, hany]
  split
  · exact .some .nil
  · split
    · exact .none
    · exact .some hsegments

theorem callBody_swapped (name : String) :
    Together Fault.SameCategory (Forall₂ Token.Swapped) (callBody name ts) (callBody name ts') := by
  have hclosing := closing?_swapped h 0
  unfold callBody
  cases h with
  | nil => exact .error rfl
  | @cons t t' ts ts' ht hts =>
    dsimp only
    rw [ht.kind, hclosing]
    refine .ite (fun _ => .error rfl) fun _ => ?_
    cases closing? 0 (t :: ts) with
    | none => exact .error rfl
    | some c =>
      have hrest := forall₂_drop (c + 1) (Forall₂.cons ht hts)
      dsimp only
      generalize (t :: ts).drop (c + 1) = more, (t' :: ts').drop (c + 1) = more' at hrest ⊢
      cases hrest with
      | nil => exact .ok (forall₂_drop 1 (forall₂_take c (.cons ht hts)))
      | cons _ _ => exact .error rfl

omit h

theorem argumentCodes_swapped (f : Signature) {args args' : List (List Token)}
    (h : Forall₂ (Forall₂ Token.Swapped) args args') :
    Together Fault.SameCategory (Forall₂ fun _ _ => True) (argumentCodes scope f args)
      (argumentCodes scope f args') := by
  have hzip : ∀ ps : List Param, Forall₂ (fun a a' : List Token × Param =>
      Forall₂ Token.Swapped a.1 a'.1 ∧ a'.2 = a.2) (args.zip ps) (args'.zip ps) := by
    induction h with
    | nil => exact fun _ => .nil
    | cons ha _ ih =>
      intro ps
      cases ps with
      | nil => exact .nil
      | cons p ps => exact .cons ⟨ha, rfl⟩ (ih ps)
  refine .mapM (hzip f.params) ?_
  rintro ⟨arg, p⟩ ⟨arg', _⟩ ⟨harg, rfl⟩
  exact value_requoted scope _ (Token.requoted_join harg) _

include h

theorem call_swapped :
    Together Fault.SameCategory (fun c c' => c'.callee = c.callee) (call scope ts)
      (call scope ts') := by
  unfold call
  cases h with
  | nil => exact .error rfl
  | @cons t t' ts ts' ht hts =>
    dsimp only
    rw [ht.kind]
    refine .ite (fun _ => .error rfl) fun hname => ?_
    rw [ht.text_eq (by rw [not_not.1 hname]; decide)]
    cases scope.function? t.text with
    | none => exact .error rfl
    | some f =>
      refine (callBody_swapped hts t.text).bind fun body body' hbody => ?_
      have hargs := arguments?_swapped hbody
      generalize arguments? body = args, arguments? body' = args' at hargs ⊢
      cases hargs with
      | none => exact .error rfl
      | some hargs =>
        dsimp only
        rw [hargs.length_eq]
        exact .ite (fun _ => .error rfl) fun _ =>
          (argumentCodes_swapped scope f hargs).bind fun _ _ _ => .pure rfl

theorem callValue_swapped (receiver : Receiver) (expected : ValueType) :
    Together Fault.SameCategory (fun _ _ => True) (callValue scope receiver expected ts)
      (callValue scope receiver expected ts') := by
  refine (call_swapped scope h).bind ?_
  rintro ⟨f, code⟩ ⟨_, code'⟩ rfl
  dsimp only
  refine .ite (fun _ => ?_) fun _ => .ite (fun _ => ?_) fun _ =>
    .ite (fun _ => .pure trivial) fun _ => .pure trivial
  · cases receiver <;> exact .error rfl
  · cases receiver <;> exact .error rfl

theorem valueOrCall_swapped (place : Place) (receiver : Receiver) (expected : ValueType)
    {t t' : Token} (ht : t.Swapped t') :
    Together Fault.SameCategory (fun _ _ => True)
      (valueOrCall scope place receiver expected t ts)
      (valueOrCall scope place receiver expected t' ts') := by
  unfold valueOrCall
  rw [ht.kind]
  exact .ite (fun _ => callValue_swapped scope h receiver expected) fun _ =>
    value_requoted scope place (Token.requoted_join (.cons ht h)) expected

/-! ## Statements without a block -/

theorem initialValue_swapped (name : String) (type : ValueType) :
    Together Fault.SameCategory (fun _ _ => True) (initialValue scope name type ts)
      (initialValue scope name type ts') := by
  rcases h with _ | ⟨heq, _ | ⟨hfirst, hmore⟩⟩
  · exact .ok trivial
  · rw [initialValue, initialValue, heq.kind]
    exact .ite (fun _ => .error rfl) fun _ => .error rfl
  · rw [initialValue, initialValue, heq.kind]
    exact .ite (fun _ => .error rfl) fun _ =>
      (valueOrCall_swapped scope hmore _ _ _ hfirst).bind fun _ _ _ => .pure trivial

theorem declaration_swapped :
    Together Fault.SameCategory (fun r r' => r'.1 = r.1) (declaration scope ts)
      (declaration scope ts') := by
  rcases h with _ | ⟨hlead, _ | ⟨htype, _ | ⟨hname, hrest⟩⟩⟩
  · exact .error rfl
  · exact .error rfl
  · exact .error rfl
  · rw [declaration, declaration, htype.kind, hname.kind]
    refine .ite (fun _ => .error rfl) fun hkind => .ite (fun _ => .error rfl) fun hkind' => ?_
    rw [htype.text_eq (by rw [not_not.1 hkind]; decide),
      hname.text_eq (by rw [not_not.1 hkind']; decide)]
    dsimp only
    refine .ite (fun _ => .error rfl) fun _ => .ite (fun _ => .error rfl) fun _ =>
      .ite (fun _ => .error rfl) fun _ => ?_
    exact (initialValue_swapped scope hrest _ _).bind fun _ _ _ => .pure rfl

theorem assignment_swapped (hname : ∀ t ∈ ts.head?, t.kind = .identifier) :
    Together Fault.SameCategory (fun _ _ => True) (assignment scope ts)
      (assignment scope ts') := by
  rcases h with _ | ⟨ht, _ | ⟨heq, _ | ⟨hfirst, hrest⟩⟩⟩
  · exact .error rfl
  · exact .error rfl
  · exact .error rfl
  · have htext := ht.text_eq (by rw [hname _ rfl]; decide)
    rw [assignment, assignment, htext, heq.kind]
    refine .ite (fun _ => .error rfl) fun _ => ?_
    cases scope.lookup? _ with
    | none => exact .error rfl
    | some type =>
      exact .ite (fun _ => .error rfl) fun _ =>
        (valueOrCall_swapped scope hrest _ _ _ hfirst).bind fun _ _ _ => .pure trivial

omit h in
theorem printable_swapped {t t' : Token} (ht : t.Swapped t') :
    Together Fault.SameCategory Eq (printable scope t) (printable scope t') := by
  by_cases hk : t.kind = .string
  · rw [printable, printable, ht.kind, hk]
    exact .ok rfl
  · rw [printable, printable, ht.kind, ht.text_eq hk]
    exact .of_eq .refl Eq.refl _

theorem printedValues_swapped :
    Together Fault.SameCategory (fun _ _ => True) (printedValues scope ts)
      (printedValues scope ts') := by
  fun_induction printedValues scope ts generalizing ts' with
  | case1 =>
    cases h
    exact .error rfl
  | case2 t =>
    obtain ⟨t', _, ht, hnil, rfl⟩ := forall₂_cons_left_iff.1 h
    cases hnil
    exact (printable_swapped scope ht).bind fun _ _ _ => .pure trivial
  | case3 t sep rest ih =>
    obtain ⟨t', _, ht, hmore, rfl⟩ := forall₂_cons_left_iff.1 h
    obtain ⟨sep', rest', hsep, hrest, rfl⟩ := forall₂_cons_left_iff.1 hmore
    rw [printedValues]
    refine (printable_swapped scope ht).bind fun _ _ _ => ?_
    have hadd : sep'.text = "add" ↔ sep.text = "add" := hsep.text.eq_word_iff (by decide)
    simp only [ne_eq, hadd]
    exact .ite (fun _ => .error rfl) fun _ => (ih hrest).bind fun _ _ _ => .pure trivial

theorem printStatement_swapped :
    Together Fault.SameCategory (fun _ _ => True) (printStatement scope ts)
      (printStatement scope ts') := by
  rcases h with _ | ⟨hlead, _ | ⟨ht, hmore⟩⟩
  · exact .error rfl
  · exact .error rfl
  · exact (printedValues_swapped scope (.cons ht hmore)).bind fun _ _ _ => .pure trivial

theorem callStatement_swapped :
    Together Fault.SameCategory (fun _ _ => True) (callStatement scope ts)
      (callStatement scope ts') :=
  (call_swapped scope (forall₂_drop 1 h)).bind fun _ _ _ => .pure trivial

/-! ## Headers of blocks -/

theorem headerTokens_swapped (header : Header) (start : Nat) :
    Together Fault.SameCategory (Forall₂ Token.Swapped) (headerTokens header start ts)
      (headerTokens header start ts') := by
  unfold headerTokens
  rw [Token.index?_swapped h]
  cases Token.index? .openBrace ts with
  | none => exact .error rfl
  | some brace =>
    have hrest := forall₂_drop (brace + 1) h
    dsimp only
    generalize ts.drop (brace + 1) = more, ts'.drop (brace + 1) = more' at hrest ⊢
    cases hrest with
    | nil => exact .ok (forall₂_drop start (forall₂_take brace h))
    | cons _ _ => exact .error rfl

theorem forLoop_swapped :
    Together Fault.SameCategory (fun o o' => o'.vars = o.vars) (forLoop scope ts)
      (forLoop scope ts') := by
  unfold forLoop
  rw [Token.index?_swapped h, Token.index?_swapped h]
  split
  · rename_i mid _ _
    refine .ite (fun _ => .error rfl) fun _ => ?_
    refine (headerTokens_swapped h .forLoop 2).bind fun bounds bounds' hbounds => ?_
    have hfirst := forall₂_take (mid - 2) hbounds
    have hlast := forall₂_drop (mid - 1) hbounds
    dsimp only
    rw [forall₂_isEmpty hfirst, forall₂_isEmpty hlast]
    refine .ite (fun _ => .error rfl) fun _ => .ite (fun _ => .error rfl) fun _ => ?_
    exact (value_requoted scope _ (Token.requoted_join hfirst) _).bind fun _ _ _ =>
      (value_requoted scope _ (Token.requoted_join hlast) _).bind fun _ _ _ => .pure rfl
  · exact .error rfl

theorem whileLoop_swapped :
    Together Fault.SameCategory (fun o o' => o'.vars = o.vars) (whileLoop scope ts)
      (whileLoop scope ts') := by
  unfold whileLoop
  rw [Token.index?_swapped h]
  exact .ite (fun _ => .error rfl) fun _ =>
    (headerTokens_swapped h .whileLoop 2).bind fun _ _ hcond =>
      (condition_swapped scope hcond .whileLoop).bind fun _ _ _ => .pure rfl

theorem loop_swapped :
    Together Fault.SameCategory (fun o o' => o'.vars = o.vars) (loop scope ts)
      (loop scope ts') := by
  have hfor := forLoop_swapped scope h
  have hwhile := whileLoop_swapped scope h
  have hindex := Token.index?_swapped h
  rcases h with _ | ⟨hlead, _ | ⟨hsecond, hrest⟩⟩
  · exact .error rfl
  · exact .error rfl
  · rw [loop, loop, hindex, hindex]
    exact .ite (fun _ => hfor) fun _ => .ite (fun _ => hwhile) fun _ => .error rfl

theorem ifStatement_swapped :
    Together Fault.SameCategory (fun o o' => o'.vars = o.vars) (ifStatement scope ts)
      (ifStatement scope ts') :=
  (headerTokens_swapped h .ifStatement 1).bind fun _ _ hcond =>
    (condition_swapped scope hcond .ifStatement).bind fun _ _ _ => .pure rfl

/-! ## Functions -/

omit h in
theorem param_swapped {a a' b b' : Token} (ha : a.Swapped a') (hb : b.Swapped b') :
    Together Fault.SameCategory Eq (param scope a b) (param scope a' b') := by
  unfold param
  rw [ha.kind, hb.kind]
  refine .ite (fun _ => .error rfl) fun hkinds => ?_
  obtain ⟨hka, hkb⟩ := not_or.1 hkinds
  rw [ha.text_eq (by rw [not_not.1 hka]; decide), hb.text_eq (by rw [not_not.1 hkb]; decide)]
  exact .of_eq .refl Eq.refl _

/-- Lists of the same parameters that are broken off by faults of the same category. -/
structure ParamList.SameCategory (l l' : ParamList) : Prop where
  scope : l'.scope = l.scope
  params : l'.params = l.params
  fault? : Option.Rel Fault.SameCategory l.fault? l'.fault?

theorem params_swapped (first : Bool) :
    (params scope first ts).SameCategory (params scope first ts') := by
  fun_induction params scope first ts generalizing ts' with
  | case1 =>
    cases h
    exact ⟨rfl, rfl, .none⟩
  | case2 scope first t hc =>
    obtain ⟨t', _, ht, hnil, rfl⟩ := forall₂_cons_left_iff.1 h
    cases hnil
    rw [params, ht.kind, if_pos hc]
    exact ⟨rfl, rfl, .some rfl⟩
  | case3 scope first t hc =>
    obtain ⟨t', _, ht, hnil, rfl⟩ := forall₂_cons_left_iff.1 h
    cases hnil
    rw [params, ht.kind, if_neg hc]
    exact ⟨rfl, rfl, .some rfl⟩
  | case4 scope first a b hc =>
    obtain ⟨a', _, ha, hmore, rfl⟩ := forall₂_cons_left_iff.1 h
    obtain ⟨b', _, hb, hnil, rfl⟩ := forall₂_cons_left_iff.1 hmore
    cases hnil
    rw [params, ha.kind, if_pos hc]
    exact ⟨rfl, rfl, .some rfl⟩
  | case5 scope first a b hc c rest fault hp =>
    obtain ⟨a', _, ha, hmore, rfl⟩ := forall₂_cons_left_iff.1 h
    obtain ⟨b', _, hb, hthird, rfl⟩ := forall₂_cons_left_iff.1 hmore
    obtain ⟨c', rest', hc', hrest, rfl⟩ := forall₂_cons_left_iff.1 hthird
    obtain ⟨fault', hp', hfault⟩ := (hp ▸ param_swapped scope hb hc').of_error
    rw [params, ha.kind, if_pos hc, hp']
    exact ⟨rfl, rfl, .some hfault⟩
  | case6 scope first a b hc c rest p hp more =>
    rename_i ih
    obtain ⟨a', _, ha, hmore, rfl⟩ := forall₂_cons_left_iff.1 h
    obtain ⟨b', _, hb, hthird, rfl⟩ := forall₂_cons_left_iff.1 hmore
    obtain ⟨c', rest', hc', hrest, rfl⟩ := forall₂_cons_left_iff.1 hthird
    obtain ⟨_, hp', rfl⟩ := (hp ▸ param_swapped scope hb hc').of_ok
    obtain ⟨hscope, hparams, hfault⟩ := ih hrest
    rw [params, ha.kind, if_pos hc, hp']
    exact ⟨hscope, congrArg (p :: ·) hparams, hfault⟩
  | case7 scope first a b rest hc fault hp =>
    obtain ⟨a', _, ha, hmore, rfl⟩ := forall₂_cons_left_iff.1 h
    obtain ⟨b', rest', hb, hrest, rfl⟩ := forall₂_cons_left_iff.1 hmore
    obtain ⟨fault', hp', hfault⟩ := (hp ▸ param_swapped scope ha hb).of_error
    rw [params.eq_def scope first (a' :: b' :: rest')]
    dsimp only
    rw [ha.kind, if_neg hc, hp']
    exact ⟨rfl, rfl, .some hfault⟩
  | case8 scope first a b rest hc p hp more =>
    rename_i ih
    obtain ⟨a', _, ha, hmore, rfl⟩ := forall₂_cons_left_iff.1 h
    obtain ⟨b', rest', hb, hrest, rfl⟩ := forall₂_cons_left_iff.1 hmore
    obtain ⟨_, hp', rfl⟩ := (hp ▸ param_swapped scope ha hb).of_ok
    obtain ⟨hscope, hparams, hfault⟩ := ih hrest
    rw [params.eq_def scope first (a' :: b' :: rest')]
    dsimp only
    rw [ha.kind, if_neg hc, hp']
    exact ⟨hscope, congrArg (p :: ·) hparams, hfault⟩

/-- Headers of the same function whose parameters differ in literals. -/
structure FunctionHeader.Swapped (f f' : FunctionHeader) : Prop where
  name : f'.name = f.name
  result : f'.result = f.result
  paramTokens : Forall₂ Token.Swapped f.paramTokens f'.paramTokens

theorem functionHeader_swapped :
    Together Fault.SameCategory FunctionHeader.Swapped (functionHeader ts)
      (functionHeader ts') := by
  rcases h with _ | ⟨hlead, _ | ⟨htype, _ | ⟨hname, _ | ⟨hparen, hrest⟩⟩⟩⟩
  · exact .error rfl
  · exact .error rfl
  · exact .error rfl
  · exact .error rfl
  · rename_i rest rest'
    have hreverse := forall₂_reverse_iff.2 hrest
    unfold functionHeader
    dsimp only
    generalize rest.reverse = tail, rest'.reverse = tail' at hreverse ⊢
    rcases hreverse with _ | ⟨hbrace, _ | ⟨hclose, hinner⟩⟩
    · exact .error rfl
    · exact .error rfl
    · dsimp only
      rw [htype.kind, hname.kind, hparen.kind, hclose.kind, hbrace.kind]
      refine .ite (fun _ => .error rfl) fun hkind => .ite (fun _ => .error rfl) fun hkind' =>
        .ite (fun _ => .error rfl) fun _ => .ite (fun _ => .error rfl) fun _ =>
        .ite (fun _ => .error rfl) fun _ => .ok ⟨?_, ?_, forall₂_reverse_iff.2 hinner⟩
      · exact hname.text_eq (by rw [not_not.1 hkind']; decide)
      · rw [htype.text_eq (by rw [not_not.1 hkind]; decide)]

end

theorem definition_swapped (st : State) {ts ts' : List Token} (h : Forall₂ Token.Swapped ts ts') :
    (definition st ts').1 = (definition st ts).1 ∧
      Together Fault.SameCategory (fun o o' => o'.vars = o.vars) (definition st ts).2
        (definition st ts').2 := by
  have hheader := functionHeader_swapped h
  unfold definition
  generalize functionHeader ts = x, functionHeader ts' = x' at hheader ⊢
  cases hheader with
  | error he => exact ⟨rfl, .error he⟩
  | @ok f f' hf =>
    obtain ⟨name, result, paramTokens⟩ := f
    obtain ⟨_, _, paramTokens'⟩ := f'
    obtain ⟨rfl, rfl, htokens⟩ := hf
    dsimp only
    have hparams := params_swapped st.scope.enterFunction htokens true
    generalize params st.scope.enterFunction true paramTokens = list,
      params st.scope.enterFunction true paramTokens' = list' at hparams ⊢
    obtain ⟨scope, ps, fault?⟩ := list
    obtain ⟨_, _, fault?'⟩ := list'
    obtain ⟨rfl, rfl, hfault⟩ := hparams
    split
    · exact ⟨rfl, .error rfl⟩
    · cases hfault with
      | some he => exact ⟨rfl, .error he⟩
      | none =>
        dsimp only
        split
        · exact ⟨rfl, .error rfl⟩
        · exact ⟨rfl, .ok rfl⟩

theorem returnStatement_swapped (st : State) {ts ts' : List Token}
    (h : Forall₂ Token.Swapped ts ts') :
    Together Fault.SameCategory (fun r r' => r'.1 = r.1) (returnStatement st ts)
      (returnStatement st ts') := by
  have hvalue := forall₂_drop 1 h
  unfold returnStatement
  generalize ts.drop 1 = value, ts'.drop 1 = value' at hvalue ⊢
  cases st.function with
  | none => exact .error rfl
  | some name =>
    dsimp only
    cases st.scope.function? name with
    | none => exact .error rfl
    | some f =>
      dsimp only
      rcases hvalue with _ | ⟨hfirst, hrest⟩
      · cases f.result with
        | void => exact .ok rfl
        | _ => exact .error rfl
      · cases f.result with
        | void => exact .error rfl
        | _ =>
          exact (valueOrCall_swapped st.scope hrest _ _ _ hfirst).bind fun _ _ _ => .pure rfl

/-- Outcomes with the same state, both refused with faults of the same category or both accepted. -/
structure Outcome.SameCategory (o o' : Outcome) : Prop where
  state : o'.state = o.state
  result : Together Fault.SameCategory (fun r r' => r'.vars = r.vars) o.result o'.result

theorem Outcome.sameCategory_ofLine (st : State) {x x' : Except Fault String}
    (h : Together Fault.SameCategory (fun _ _ => True) x x') :
    (Outcome.ofLine st x).SameCategory (Outcome.ofLine st x') := by
  cases h with
  | error he => exact ⟨rfl, .error he⟩
  | ok _ => exact ⟨rfl, .ok rfl⟩

/-- Statements that differ in the contents of their literals are carried out alike. -/
theorem perform_swapped (st : State) {first first' : Token} {rest rest' : List Token}
    (hfirst : first.Swapped first') (hrest : Forall₂ Token.Swapped rest rest') :
    Option.Rel Outcome.SameCategory (perform st first.kind (first :: rest))
      (perform st first'.kind (first' :: rest')) := by
  have h : Forall₂ Token.Swapped (first :: rest) (first' :: rest') := .cons hfirst hrest
  rw [hfirst.kind]
  cases hk : first.kind with
  | create =>
    have hd := declaration_swapped st.scope h
    simp only [perform]
    generalize declaration st.scope (first :: rest) = x,
      declaration st.scope (first' :: rest') = x' at hd ⊢
    cases hd with
    | error he => exact .some ⟨rfl, .error he⟩
    | @ok r r' hr =>
      obtain ⟨scope, line⟩ := r
      obtain ⟨_, line'⟩ := r'
      obtain rfl := hr
      exact .some ⟨rfl, .ok rfl⟩
  | identifier =>
    -- the name that is looked up is no literal
    refine .some (Outcome.sameCategory_ofLine st (assignment_swapped st.scope h ?_))
    rintro t ⟨⟩
    exact hk
  | print => exact .some (Outcome.sameCategory_ofLine st (printStatement_swapped st.scope h))
  | call => exact .some (Outcome.sameCategory_ofLine st (callStatement_swapped st.scope h))
  | loop => exact .some ⟨rfl, loop_swapped st.scope h⟩
  | check => exact .some ⟨rfl, ifStatement_swapped st.scope h⟩
  | define =>
    obtain ⟨hstate, hresult⟩ := definition_swapped st h
    exact .some ⟨hstate, hresult⟩
  | giveBack =>
    have hr := returnStatement_swapped st h
    simp only [perform]
    generalize returnStatement st (first :: rest) = x,
      returnStatement st (first' :: rest') = x' at hr ⊢
    cases hr with
    | error he => exact .some ⟨rfl, .error he⟩
    | @ok r r' hr =>
      obtain ⟨st', line⟩ := r
      obtain ⟨_, line'⟩ := r'
      obtain rfl := hr
      exact .some ⟨rfl, .ok rfl⟩
  | _ => exact .none

theorem perform_of_tokens (st : State) {ts ts' : List Token}
    (h : ts' = ts ∨ Forall₂ Token.Swapped ts ts') :
    (ts = [] ∧ ts' = []) ∨ ∃ first rest first' rest', ts = first :: rest ∧ ts' = first' :: rest' ∧
      Option.Rel Outcome.SameCategory (perform st first.kind (first :: rest))
        (perform st first'.kind (first' :: rest')) := by
  rcases h with rfl | h
  · cases ts' with
    | nil => exact .inl ⟨rfl, rfl⟩
    | cons first rest =>
      refine .inr ⟨first, rest, first, rest, rfl, rfl, ?_⟩
      cases perform st first.kind (first :: rest) with
      | none => exact .none
      | some o =>
        exact .some ⟨rfl, .of_eq .refl (R := fun r r' => r'.vars = r.vars) (fun _ => rfl) o.result⟩
  · cases h with
    | nil => exact .inl ⟨rfl, rfl⟩
    | cons hfirst hrest =>
      exact .inr ⟨_, _, _, _, rfl, rfl, perform_swapped st hfirst hrest⟩

end Statement

/-! ## Lines -/

/-- Lines that differ in the contents of their string literals. A quote without a partner starts no
literal, and what stands behind it is the same. -/
inductive Line.Requoted : String → String → Prop
  | same (text : String) : Requoted text text
  | closed {text text' : String} (h : Text.Requoted text.toList text'.toList) : Requoted text text'
  | opened {text text' : String} {front front' body : List Char} (h : Text.Requoted front front')
      (hb : Plain body) (htext : text.toList = front ++ '"' :: body)
      (htext' : text'.toList = front' ++ '"' :: body) : Requoted text text'

namespace Line.Requoted

variable {text text' : String} (h : Line.Requoted text text')

include h

theorem eq_closeBrace_iff : text' = "\x7d" ↔ text = "\x7d" := by
  have hquote {s : String} (hm : '"' ∈ s.toList) : s ≠ "\x7d" := by
    rintro rfl
    exact absurd hm (by decide)
  cases h with
  | same => rfl
  | closed h =>
    generalize htext : text.toList = cs, htext' : text'.toList = cs' at h
    cases h with
    | plain _ => rw [String.toList_inj.1 (htext'.trans htext.symm)]
    | literal _ _ _ =>
      exact iff_of_false (hquote (by simp [htext'])) (hquote (by simp [htext]))
  | opened _ _ htext htext' =>
    exact iff_of_false (hquote (by simp [htext'])) (hquote (by simp [htext]))

/-- The tokens are refused on both sides, or are the same up to literals. -/
theorem tokens : Together (fun _ _ => True) (fun ts ts' => ts' = ts ∨ Forall₂ Token.Swapped ts ts')
    (Token.ofLine text) (Token.ofLine text') := by
  cases h with
  | same => exact .of_eq (fun _ => trivial) (fun _ => .inl rfl) _
  | closed h =>
    have htokens := Token.ofLine_requoted h
    generalize Token.ofLine text = x, Token.ofLine text' = x' at htokens ⊢
    cases htokens with
    | error _ => exact .error trivial
    | ok hts => exact .ok (.inr hts)
  | opened h hb htext htext' =>
    -- the quote without a partner leaves a lexeme that belongs to no kind
    have hopen {front : List Char} (hfront : Closed front) {s : String}
        (hs : s.toList = front ++ '"' :: _) : ¬ Closed s.toList := fun hclosed =>
      not_closed_quote_plain hb (Closed.of_append hfront (hs ▸ hclosed))
    obtain ⟨l, hl⟩ := Token.ofLine_of_not_closed (hopen h.closed.1 htext)
    obtain ⟨l', hl'⟩ := Token.ofLine_of_not_closed (hopen h.closed.2 htext')
    rw [hl, hl']
    exact .error trivial

theorem exists_tokenize :
    ∃ ts ts' us, tokenize text = ts ++ us ∧ tokenize text' = ts' ++ us ∧
      Forall₂ Text.Swapped ts ts' := by
  cases h with
  | same => exact ⟨[], [], tokenize text, rfl, rfl, .nil⟩
  | closed h =>
    exact ⟨_, _, [], (List.append_nil _).symm, (List.append_nil _).symm, tokenize_requoted h⟩
  | opened h _ htext htext' => exact exists_tokenize_opened h htext htext'

theorem opens_eq : Step.opens (tokenize text') = Step.opens (tokenize text) := by
  obtain ⟨ts, ts', us, htext, htext', hts⟩ := h.exists_tokenize
  have hmem : "\x7b" ∈ ts' ↔ "\x7b" ∈ ts := by
    clear htext htext'
    induction hts with
    | nil => rfl
    | cons ht _ ih =>
      rw [List.mem_cons, List.mem_cons, ih, eq_comm, ht.eq_word_iff (by decide), eq_comm]
  simp only [Step.opens_eq, htext, htext', List.mem_append, hmem]

theorem isControl_eq : Step.isControl (tokenize text') = Step.isControl (tokenize text) := by
  obtain ⟨ts, ts', us, htext, htext', hts⟩ := h.exists_tokenize
  rw [htext, htext']
  cases hts with
  | nil => rfl
  | cons ht _ => simp only [Step.isControl, List.cons_append, ht.classify_eq]

end Line.Requoted

namespace Step

/-- The categories of the diagnostics of a step. -/
def categories (s : Step) : List Category := (Event.diagnostics s.events).map (·.category)

theorem categories_fault (st : State) (code : List String) (d : Diagnostic) (es : List Event) :
    (Step.mk st code (.fault d :: es)).categories =
      d.category :: (Event.diagnostics es).map (·.category) := rfl

/-- Steps whose diagnostics are of the same categories; the states behind them keep different lines
of source. -/
structure SameCategories (lines : List String) (s t : Step) : Prop where
  state : t.state = s.state.over lines
  categories : t.categories = s.categories

section

variable (lines : List String) (st : State) {text text' : String} (h : Line.Requoted text text')

include h

theorem perform_requoted :
    SameCategories lines (perform st text).1 (perform (st.over lines) text').1 ∧
      (perform (st.over lines) text').2 = (perform st text).2 := by
  have htokens := h.tokens
  unfold perform
  generalize Token.ofLine text = x, Token.ofLine text' = x' at htokens ⊢
  cases htokens with
  | error _ => exact ⟨⟨rfl, by simp only [categories_fault]⟩, rfl⟩
  | ok hts =>
    obtain ⟨rfl, rfl⟩ | ⟨first, rest, first', rest', rfl, rfl, hp⟩ := perform_of_tokens st hts
    · exact ⟨⟨rfl, rfl⟩, rfl⟩
    · dsimp only
      rw [perform_over]
      generalize Statement.perform st first.kind (first :: rest) = o,
        Statement.perform st first'.kind (first' :: rest') = o' at hp ⊢
      cases hp with
      | none =>
        exact ⟨⟨rfl, by simp only [Option.map_none, categories_fault, Event.diagnostics_info]⟩, rfl⟩
      | @some o o' ho =>
        obtain ⟨st', result⟩ := o
        obtain ⟨_, result'⟩ := o'
        obtain ⟨rfl, hresult⟩ := ho
        cases hresult with
        | error he =>
          have hcategory (st : State) (fault : Fault) :
              (fault.diagnostic st).category = fault.category := rfl
          refine ⟨⟨rfl, ?_⟩, rfl⟩
          simp only [Option.map_some, categories_fault, hcategory, Event.diagnostics_info]
          rw [he]
        | ok hvars => exact ⟨⟨rfl, rfl⟩, hvars⟩

theorem marked_requoted : marked (st.over lines) text' = (marked st text).over lines := by
  unfold marked
  rw [h.opens_eq, h.isControl_eq]
  split <;> rfl

theorem ofLine_requoted : SameCategories lines (ofLine st text) (ofLine (st.over lines) text') := by
  by_cases hbrace : text = "\x7d"
  · have hbrace' := h.eq_closeBrace_iff.2 hbrace
    subst hbrace hbrace'
    have hsame : Respaced "\x7d".toList "\x7d".toList := .char (by decide) (by decide) .nil
    have hmirrors := ofLine_respaced lines st hsame
    refine ⟨hmirrors.state, ?_⟩
    have hcategory : (·.category) = Diagnostic.category ∘ Diagnostic.columnless := rfl
    rw [categories, categories, hcategory, ← List.map_map, hmirrors.diagnostics, List.map_map]
  · have hbrace' : text' ≠ "\x7d" := fun heq => hbrace (h.eq_closeBrace_iff.1 heq)
    rw [ofLine_statement hbrace, ofLine_statement hbrace', marked_requoted lines st h, h.opens_eq]
    obtain ⟨⟨hstate, hcategories⟩, hvars⟩ := perform_requoted lines (marked st text) h
    generalize perform ((marked st text).over lines) text' = r' at hstate hcategories hvars ⊢
    generalize perform (marked st text) text = r at hstate hcategories hvars ⊢
    refine ⟨?_, hcategories⟩
    dsimp only
    rw [hstate, hvars]
    split <;> rfl

end

/-- Lines that differ in the contents of their literals lead through the same states. -/
theorem ofLines_requoted (lines : List String) (st : State) {xs ys : List String}
    (h : Forall₂ Line.Requoted xs ys) :
    (ofLines (st.over lines) ys).state = (ofLines st xs).state.over lines := by
  induction h generalizing st with
  | nil => rfl
  | @cons x y xs ys hxy _ ih =>
    rw [ofLines, ofLines, (ofLine_requoted lines st hxy).state]
    exact ih (ofLine st x).state

end Step

/-! ## Programs -/

theorem Run.before_requoted {program program' : List String}
    (h : Forall₂ Line.Requoted program program') (k : Nat) :
    before program' k = (before program k).over program' :=
  Step.ofLines_requoted program' { lines := program } (forall₂_take k h)

/-- What the strings of a program say does not matter to the categories of its diagnostics, as long
as no content starts or ceases to speak of a type, or of something that is missing. -/
theorem category_requoted {program program' : List String}
    (h : Forall₂ Line.Requoted program program') {k : Nat} {text text' : String}
    (hk : program[k]? = some text) (hk' : program'[k]? = some text') :
    (Step.ofLine (Run.before program' k) text').categories =
      (Step.ofLine (Run.before program k) text).categories := by
  obtain ⟨hlt, rfl⟩ := List.getElem?_eq_some_iff.1 hk
  obtain ⟨hlt', rfl⟩ := List.getElem?_eq_some_iff.1 hk'
  rw [Run.before_requoted h]
  exact (Step.ofLine_requoted program' (Run.before program k) (h.get hlt hlt')).categories

/-- A condition that is refused, as a literal stands where a variable is wanted. -/
def Line.comparing (word : String) : String :=
  "thank you for checking if " ++ "\"" ++ word ++ "\"" ++ " equal to s \x7b"

/-- A program with such a condition in its third line. -/
def Run.comparing (word : String) : List String :=
  ["please define function void main() \x7b", "please create text s", Line.comparing word, "\x7d",
    "\x7d"]

theorem Run.comparing_requoted {word word' : String} (h : Exchanged word.toList word'.toList) :
    Forall₂ Line.Requoted (comparing word) (comparing word') := by
  have hline {lead tail : String} (hlead : Plain lead.toList) (htail : Plain tail.toList) :
      Line.Requoted (lead ++ "\"" ++ word ++ "\"" ++ tail)
        (lead ++ "\"" ++ word' ++ "\"" ++ tail) := by
    refine .closed ?_
    simp only [String.toList_append, List.append_assoc]
    exact .literal hlead h (.plain htail)
  exact .cons (.same _) (.cons (.same _) (.cons (hline (by decide) (by decide))
    (.cons (.same _) (.cons (.same _) .nil))))

/-- A word of a hint alone is no hint. -/
theorem category_requoted_comparing :
    Exchanged "a".toList "type 1, please".toList ∧
      (Step.ofLine (Run.before (Run.comparing "type 1, please") 2)
        (Line.comparing "type 1, please")).categories = [.structural] := by
  have hword : Exchanged "a".toList "type 1, please".toList :=
    ⟨by decide, by decide, by decide, by decide, by decide +kernel, by decide +kernel⟩
  refine ⟨hword, ?_⟩
  rw [category_requoted (Run.comparing_requoted hword) (k := 2) rfl rfl]
  decide +kernel

/-- What the literal says decides on the category of one and the same refusal. -/
theorem category_told_by_literal :
    let told (word : String) :=
      (Step.ofLine (Run.before (Run.comparing word) 2) (Line.comparing word)).categories
    told "a" = [.structural] ∧ told "is of type" = [.type] ∧ told "not found" = [.scope] := by
  decide +kernel

end Courtesy
