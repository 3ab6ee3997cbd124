import Courtesy.Proofs.Scopes

/-!
# Lists of parameters

A list of parameters is written as types and names in turn, with a comma or none between two
parameters (`WrittenParam`). Reading takes one such parameter after another off the tokens, each of
which must be free in the scope that the ones in front of it have filled (`params_step`), and stops
at the first tokens that are none. Main statement: a list is accepted exactly if all of it is
written so, with names that differ from each other and from all functions; and what was read in
front of a fault is the longest list of this form that the tokens start with (`params_exact`).
-/

namespace Courtesy

/-- A name that was free is declared, and besides it what was declared before. -/
theorem Scope.isDeclared_declare {s : Scope} {x : String} (h : s.isDeclared x = false)
    (t : ValueType) (y : String) : (s.declare x t).isDeclared y = (y == x || s.isDeclared y) := by
  rw [isDeclared, lookup?_eq, flatten_declare h, List.lookup_cons, isDeclared, lookup?_eq]
  cases y == x <;> rfl

@[simp] theorem Scope.isFunction_declare (s : Scope) (x : String) (t : ValueType) (y : String) :
    (s.declare x t).isFunction y = s.isFunction y := by
  rw [isFunction, function?, functions_declare]
  rfl

namespace Statement

/-- A parameter as it is written: the comma in front of it, if there is one, its type and
its name. -/
@[ext] structure WrittenParam where
  comma? : Option Token
  type : Token
  name : Token

namespace WrittenParam

def tokens (q : WrittenParam) : List Token := q.comma?.toList ++ [q.type, q.name]

/-- The parameter that is meant. -/
def param (q : WrittenParam) : Param :=
  ⟨q.name.text, (ValueType.ofName? q.type.text).getD .invalid⟩

/-- The tokens are of the right kinds, and the type is not void. -/
structure Fits (q : WrittenParam) : Prop where
  comma : ∀ t ∈ q.comma?, t.kind = .comma
  type : q.type.kind = .typeName
  name : q.name.kind = .identifier
  nonvoid : q.param.type ≠ .void

/-- A list of parameters: no comma in front of the first, and names that differ from each other and
from those of the functions. -/
structure Listed (s : Scope) (qs : List WrittenParam) : Prop where
  fits : ∀ q ∈ qs, q.Fits
  head : ∀ q ∈ qs.head?, q.comma? = none
  distinct : (qs.map (·.param.name)).Nodup
  function : ∀ q ∈ qs, s.isFunction q.param.name = false

/-- The parameter can be read next; `first` says that none has been read yet. -/
structure Admissible (s : Scope) (first : Bool) (q : WrittenParam) : Prop where
  fits : q.Fits
  head : first = true → q.comma? = none
  function : s.isFunction q.param.name = false
  declared : s.isDeclared q.param.name = false

/-- The parameters can be read one after another, each declared before the next is read. -/
inductive Readable : Scope → Bool → List WrittenParam → Prop
  | nil (s : Scope) (first : Bool) : Readable s first []
  | cons {s : Scope} {first : Bool} {q : WrittenParam} {qs : List WrittenParam}
      (hq : Admissible s first q) (h : Readable (s.declare q.param.name q.param.type) false qs) :
      Readable s first (q :: qs)

variable {s : Scope} {first : Bool} {qs : List WrittenParam}

theorem readable_iff :
    Readable s first qs ↔ (∀ q ∈ qs, q.Fits) ∧ (first = true → ∀ q ∈ qs.head?, q.comma? = none) ∧
      (qs.map (·.param.name)).Nodup ∧ (∀ q ∈ qs, s.isFunction q.param.name = false) ∧
      ∀ q ∈ qs, s.isDeclared q.param.name = false := by
  induction qs generalizing s first with
  | nil => simp [Readable.nil]
  | cons q qs ih =>
    constructor
    · rintro (_ | ⟨hq, h⟩)
      obtain ⟨hfits, -, hdistinct, hfunction, hdeclared⟩ := ih.1 h
      simp only [Scope.isFunction_declare, Scope.isDeclared_declare hq.declared,
        Bool.or_eq_false_iff, beq_eq_false_iff_ne] at hfunction hdeclared
      refine ⟨List.forall_mem_cons.2 ⟨hq.fits, hfits⟩, ?_, ?_,
        List.forall_mem_cons.2 ⟨hq.function, hfunction⟩,
        List.forall_mem_cons.2 ⟨hq.declared, fun r hr => (hdeclared r hr).2⟩⟩
      · rintro hfirst r ⟨⟩
        exact hq.head hfirst
      · refine List.nodup_cons.2 ⟨fun hmem => ?_, hdistinct⟩
        obtain ⟨r, hr, hname⟩ := List.mem_map.1 hmem
        exact (hdeclared r hr).1 hname
    · rintro ⟨hfits, hhead, hdistinct, hfunction, hdeclared⟩
      obtain ⟨hqfits, hfits⟩ := List.forall_mem_cons.1 hfits
      obtain ⟨hqfunction, hfunction⟩ := List.forall_mem_cons.1 hfunction
      obtain ⟨hqdeclared, hdeclared⟩ := List.forall_mem_cons.1 hdeclared
      obtain ⟨hnew, hdistinct⟩ := List.nodup_cons.1 hdistinct
      refine .cons ⟨hqfits, fun hfirst => hhead hfirst q rfl, hqfunction, hqdeclared⟩ (ih.2 ?_)
      refine ⟨hfits, by simp, hdistinct, by simpa using hfunction, fun r hr => ?_⟩
      rw [Scope.isDeclared_declare hqdeclared, hdeclared r hr, Bool.or_false, beq_eq_false_iff_ne]
      exact fun hname => hnew (List.mem_map.2 ⟨r, hr, hname⟩)

/-- In the empty frame of a function only the functions are in the way. -/
theorem readable_enterFunction : Readable s.enterFunction true qs ↔ Listed s qs := by
  rw [readable_iff]
  constructor
  · rintro ⟨hfits, hhead, hdistinct, hfunction, -⟩
    exact ⟨hfits, hhead rfl, hdistinct, hfunction⟩
  · intro h
    exact ⟨h.fits, fun _ => h.head, h.distinct, h.function, fun _ _ => rfl⟩

/-- The variables that the parameters become, the last one first. -/
def binding (qs : List WrittenParam) : Variables :=
  (qs.map fun q => (q.param.name, q.param.type)).reverse

theorem binding_cons (q : WrittenParam) (qs : List WrittenParam) :
    binding (q :: qs) = binding qs ++ [(q.param.name, q.param.type)] := by
  rw [binding, List.map_cons, List.reverse_cons]
  rfl

theorem Readable.declareAll (h : Readable s first qs) {frame : Variables}
    (hframe : s.frames = [frame]) :
    s.declareAll (qs.map param) = ⟨[binding qs ++ frame], s.functions⟩ := by
  induction h generalizing frame with
  | nil s first =>
    show s = ⟨[frame], s.functions⟩
    rw [← hframe]
  | @cons s first q qs hq _ ih =>
    have hdeclared := Scope.declare_fresh hq.declared q.param.type
    rw [hframe] at hdeclared
    have hmore := ih (congrArg Scope.frames hdeclared)
    rw [Scope.functions_declare] at hmore
    rw [binding_cons, List.append_assoc]
    exact hmore

theorem lookup_binding (h : (qs.map (·.param.name)).Nodup) {x : String} {t : ValueType} :
    (binding qs).lookup x = some t ↔ ⟨x, t⟩ ∈ qs.map param := by
  have hnames : (binding qs).map (·.1) = (qs.map (·.param.name)).reverse := by
    rw [binding, List.map_reverse, List.map_map]
    rfl
  have hdistinct : ((binding qs).map (·.1)).Nodup := by
    rw [hnames]
    exact List.pairwise_reverse.2 (h.imp Ne.symm)
  rw [lookup_eq_some_iff_mem hdistinct, binding, List.mem_reverse, List.mem_map, List.mem_map]
  refine exists_congr fun q => and_congr_right fun _ => ?_
  cases q.param
  simp

/-! ## One parameter -/

theorem param_eq_ok {q : WrittenParam} (h : Admissible s first q) :
    Statement.param s q.type q.name = .ok q.param := by
  have hkinds : ¬ (q.type.kind ≠ .typeName ∨ q.name.kind ≠ .identifier) := by
    simp [h.fits.type, h.fits.name]
  have hvoid : ¬ (ValueType.ofName? q.type.text).getD .invalid = .void := h.fits.nonvoid
  have hfunction : s.isFunction q.name.text = false := h.function
  have hdeclared : s.isDeclared q.name.text = false := h.declared
  rw [Statement.param, if_neg hkinds]
  dsimp only
  rw [if_neg hvoid, hfunction, hdeclared]
  rfl

theorem admissible_of_param (first : Bool) (q : WrittenParam) {p : Param}
    (h : Statement.param s q.type q.name = .ok p) (hcomma : ∀ t ∈ q.comma?, t.kind = .comma)
    (hhead : first = true → q.comma? = none) : p = q.param ∧ Admissible s first q := by
  obtain ⟨htype, hname, hdeclared, hfunction, hvoid, rfl⟩ := param_ok h
  exact ⟨rfl, ⟨hcomma, htype, hname, hvoid⟩, hhead, hfunction, hdeclared⟩

/-- A parameter takes two tokens, or three with a comma. -/
theorem tokens_cases (q : WrittenParam) (rest : List Token) :
    (q.comma? = none ∧ q.tokens ++ rest = q.type :: q.name :: rest) ∨
      ∃ c, q.comma? = some c ∧ q.tokens ++ rest = c :: q.type :: q.name :: rest := by
  obtain ⟨comma?, type, name⟩ := q
  cases comma? with
  | none => exact .inl ⟨rfl, rfl⟩
  | some c => exact .inr ⟨c, rfl, rfl⟩

/-- The tokens start with one parameter at most, since a comma is no type. -/
theorem tokens_inj {q r : WrittenParam} (hq : q.Fits) (hr : r.Fits) {rest rest' : List Token}
    (h : q.tokens ++ rest = r.tokens ++ rest') : q = r ∧ rest = rest' := by
  have hne : ∀ {a b : Token}, a.kind = .comma → b.kind = .typeName → a ≠ b := by
    rintro a b ha hb rfl
    rw [ha] at hb
    cases hb
  rcases tokens_cases q rest with ⟨hc, heq⟩ | ⟨c, hc, heq⟩ <;>
    rcases tokens_cases r rest' with ⟨hc', heq'⟩ | ⟨c', hc', heq'⟩ <;>
    rw [heq, heq'] at h <;> injection h with h₁ h₂
  · injection h₂ with h₂ h₃
    exact ⟨WrittenParam.ext (hc.trans hc'.symm) h₁ h₂, h₃⟩
  · exact absurd h₁.symm (hne (hr.comma c' hc') hq.type)
  · exact absurd h₁ (hne (hq.comma c hc) hr.type)
  · injection h₂ with h₂ h₃
    injection h₃ with h₃ h₄
    exact ⟨WrittenParam.ext (hc.trans (h₁ ▸ hc'.symm)) h₂ h₃, h₄⟩

end WrittenParam

open WrittenParam

/-! ## All parameters -/

/-- What reading parameters can come to: there is nothing to read, or one parameter is read and
declared, or what follows is no parameter. -/
inductive ParamStep (s : Scope) (first : Bool) : List Token → ParamList → Prop
  | done : ParamStep s first [] ⟨s, [], none⟩
  | next {q : WrittenParam} (hq : Admissible s first q) (rest : List Token) :
      ParamStep s first (q.tokens ++ rest)
        { params (s.declare q.param.name q.param.type) false rest with
          params := q.param :: (params (s.declare q.param.name q.param.type) false rest).params }
  | stopped {tokens : List Token} (fault : Fault) (hne : tokens ≠ [])
      (hno : ∀ q rest, tokens = q.tokens ++ rest → ¬ Admissible s first q) :
      ParamStep s first tokens ⟨s, [], some fault⟩

theorem params_step (s : Scope) (first : Bool) (tokens : List Token) :
    ParamStep s first tokens (params s first tokens) := by
  fun_cases params s first tokens with
  | case1 s first => exact .done
  | case2 s first t _ =>
    refine .stopped _ (List.cons_ne_nil _ _) fun q rest h _ => ?_
    rcases tokens_cases q rest with ⟨-, heq⟩ | ⟨c, -, heq⟩ <;> cases h.trans heq
  | case3 s first t _ =>
    refine .stopped _ (List.cons_ne_nil _ _) fun q rest h _ => ?_
    rcases tokens_cases q rest with ⟨-, heq⟩ | ⟨c, -, heq⟩ <;> cases h.trans heq
  | case4 s first a b hc =>
    have hcomma : a.kind = .comma := by simpa using (Bool.and_eq_true_iff.1 hc).2
    refine .stopped _ (List.cons_ne_nil _ _) fun q rest h hq => ?_
    rcases tokens_cases q rest with ⟨-, heq⟩ | ⟨c, -, heq⟩
    · cases h.trans heq
      rw [hq.fits.type] at hcomma
      cases hcomma
    · cases h.trans heq
  | case5 s first a b hc c rest fault hp =>
    have hcomma : a.kind = .comma := by simpa using (Bool.and_eq_true_iff.1 hc).2
    refine .stopped _ (List.cons_ne_nil _ _) fun q rest h hq => ?_
    rcases tokens_cases q rest with ⟨-, heq⟩ | ⟨c, -, heq⟩
    · cases h.trans heq
      rw [hq.fits.type] at hcomma
      cases hcomma
    · cases h.trans heq
      rw [param_eq_ok hq] at hp
      cases hp
  | case6 s first a b hc c rest p hp more =>
    obtain ⟨hfirst, hcomma⟩ := Bool.and_eq_true_iff.1 hc
    obtain ⟨rfl, hq⟩ := admissible_of_param first ⟨some a, b, c⟩ hp
      (by rintro t ⟨⟩; simpa using hcomma) (fun h => by simp [h] at hfirst)
    exact .next hq rest
  | case7 s first a b rest hc fault hp =>
    refine .stopped _ (List.cons_ne_nil _ _) fun q rest h hq => ?_
    rcases tokens_cases q rest with ⟨-, heq⟩ | ⟨c, hsome, heq⟩
    · cases h.trans heq
      rw [param_eq_ok hq] at hp
      cases hp
    · cases h.trans heq
      have hfirst : first = false := by
        cases first with
        | false => rfl
        | true => rw [hq.head rfl] at hsome; cases hsome
      exact hc (by simp [hfirst, hq.fits.comma a hsome])
  | case8 s first a b rest hc p hp more =>
    obtain ⟨rfl, hq⟩ := admissible_of_param first ⟨none, a, b⟩ hp
      (by rintro t ⟨⟩) (fun _ => rfl)
    exact .next hq rest

/-- Reading takes as many parameters off the tokens as can be read one after another. -/
theorem params_readable (s : Scope) (first : Bool) (tokens : List Token) :
    ∃ qs rest, Readable s first qs ∧ tokens = qs.flatMap WrittenParam.tokens ++ rest ∧
      (params s first tokens).params = qs.map WrittenParam.param ∧
      (params s first tokens).scope = s.declareAll (qs.map WrittenParam.param) ∧
      ((params s first tokens).fault? = none ↔ rest = []) ∧
      ∀ qs' rest', Readable s first qs' → tokens = qs'.flatMap WrittenParam.tokens ++ rest' →
        qs' <+: qs := by
  -- a parameter takes at least two tokens, so the induction is on their number
  induction hlen : tokens.length using Nat.strongRecOn generalizing s first tokens with
  | ind len ih =>
    have hstep := params_step s first tokens
    generalize params s first tokens = list at hstep ⊢
    cases hstep with
    | done =>
      refine ⟨[], [], .nil s first, rfl, rfl, rfl, by simp, fun qs' rest' h heq => ?_⟩
      cases h with
      | nil => exact List.prefix_rfl
      | @cons _ _ q qs hq _ =>
        rw [List.flatMap_cons, List.append_assoc] at heq
        rcases tokens_cases q (qs.flatMap WrittenParam.tokens ++ rest') with ⟨-, h⟩ | ⟨c, -, h⟩ <;>
          cases heq.trans h
    | @next q hq rest =>
      obtain ⟨qs, rest', hqs, hrest, hparams, hscope, hfault, hmax⟩ :=
        ih rest.length (by simp [← hlen, WrittenParam.tokens]; omega)
          (s.declare q.param.name q.param.type) false rest rfl
      refine ⟨q :: qs, rest', .cons hq hqs, ?_, ?_, hscope, hfault, fun qs' more h heq => ?_⟩
      · rw [List.flatMap_cons, List.append_assoc, ← hrest]
      · rw [List.map_cons, ← hparams]
      · cases h with
        | nil => exact List.nil_prefix
        | @cons _ _ r rs hr hrs =>
          rw [List.flatMap_cons, List.append_assoc] at heq
          obtain ⟨rfl, hmore⟩ := tokens_inj hq.fits hr.fits heq
          exact List.cons_prefix_cons.2 ⟨rfl, hmax rs more hrs hmore⟩
    | stopped fault hne hno =>
      refine ⟨[], tokens, .nil s first, rfl, rfl, rfl, by simp [hne], fun qs' rest' h heq => ?_⟩
      cases h with
      | nil => exact List.prefix_rfl
      | @cons _ _ q qs hq _ =>
        rw [List.flatMap_cons, List.append_assoc] at heq
        exact absurd hq (hno q _ heq)

/-- Lists of parameters are accepted exactly by their grammar: types and names in turn, with a comma
or none between two parameters, no type void, and names that differ from each other and from those
of the functions. What has been read, with a fault behind it or not, is the longest such list that
the tokens start with, in order, and the frame of the function holds just these names with
these types. -/
theorem params_exact (s : Scope) (tokens : List Token) :
    ((params s.enterFunction true tokens).fault? = none ↔
      ∃ qs, Listed s qs ∧ tokens = qs.flatMap WrittenParam.tokens) ∧
    ∃ qs rest frame, Listed s qs ∧ tokens = qs.flatMap WrittenParam.tokens ++ rest ∧
      (∀ qs' rest', Listed s qs' → tokens = qs'.flatMap WrittenParam.tokens ++ rest' → qs' <+: qs) ∧
      ((params s.enterFunction true tokens).fault? = none ↔ rest = []) ∧
      (params s.enterFunction true tokens).params = qs.map WrittenParam.param ∧
      (params s.enterFunction true tokens).scope = ⟨[frame], s.functions⟩ ∧
      ∀ x t, frame.lookup x = some t ↔ ⟨x, t⟩ ∈ qs.map WrittenParam.param := by
  obtain ⟨qs, rest, hqs, htokens, hparams, hscope, hfault, hmax⟩ :=
    params_readable s.enterFunction true tokens
  have hlisted := readable_enterFunction.1 hqs
  have hlongest : ∀ qs' rest', Listed s qs' → tokens = qs'.flatMap WrittenParam.tokens ++ rest' →
      qs' <+: qs := fun qs' rest' h => hmax qs' rest' (readable_enterFunction.2 h)
  refine ⟨⟨fun h => ⟨qs, hlisted, ?_⟩, ?_⟩, qs, rest, binding qs, hlisted, htokens,
    hlongest, hfault,
    hparams, ?_, fun x t => lookup_binding hlisted.distinct⟩
  · rw [htokens, hfault.1 h, List.append_nil]
  · rintro ⟨qs', hlisted', htokens'⟩
    rw [hfault]
    obtain ⟨more, rfl⟩ := hlongest qs' [] hlisted' (by rw [htokens', List.append_nil])
    rw [htokens, List.flatMap_append, List.append_assoc] at htokens'
    exact (List.append_eq_nil_iff.1 (List.append_right_eq_self.1 htokens')).2
  · rw [hscope, hqs.declareAll rfl, List.append_nil]
    rfl

end Statement

end Courtesy
