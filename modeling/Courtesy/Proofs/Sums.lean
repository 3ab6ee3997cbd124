import Courtesy.Proofs.Gates

/-!
# Decimal expressions

A decimal expression is a sum: operands with operator words between them, where an operand is a
number, a negated number, a numeric variable or a sum in parentheses (`Sums`). The check of an
expression is spread over a gate, which folds a sign into the number behind it and looks every name
up, and an acceptor, which reads the sequence of roles.

* `Passes.gated`, `Gated.gate`: what the gate lets through, as a relation between tokens and roles.
* `Formed.spelled`: tokens that are let through as a part of the acceptor's grammar form a part of a
  sum.
* `Sums.admitted`: the tokens of a sum are let through as a part of that grammar.
-/

namespace Courtesy.Expression

open Literal (Numeral)

/-- A variable that can stand in a sum. -/
structure Summand (vars : Variables) (name : String) : Prop where
  isIdentifier : ∃ c cs, name.toList = c :: cs ∧ Text.isWordStart c = true ∧
    ∀ d ∈ cs, Text.isWordChar d = true
  isFree : name ∉ ["add", "sub", "mul", "div", "true", "false"]
  isNumeric : vars.lookup name = some .integer ∨ vars.lookup name = some .decimal

/-- The parts of a sum. -/
inductive SumPart where
  | sum
  | rest
  | operand

/-- The tokens that form a part of a sum. -/
inductive Sums (vars : Variables) : SumPart → List String → Prop
  | number {n : String} (hn : Numeral n) : Sums vars .operand [n]
  | negated {n : String} (hn : Numeral n) : Sums vars .operand ["sub", n]
  | named {x : String} (hx : Summand vars x) : Sums vars .operand [x]
  | group {s : List String} (hs : Sums vars .sum s) : Sums vars .operand ("(" :: (s ++ [")"]))
  | done : Sums vars .rest []
  | more {op : String} {x r : List String} (hop : op ∈ ["add", "sub", "mul", "div"])
      (hx : Sums vars .operand x) (hr : Sums vars .rest r) : Sums vars .rest (op :: (x ++ r))
  | plain {x r : List String} (hx : Sums vars .operand x) (hr : Sums vars .rest r) :
      Sums vars .sum (x ++ r)
  | added {x r : List String} (hx : Sums vars .operand x) (hr : Sums vars .rest r) :
      Sums vars .sum ("add" :: (x ++ r))

/-! ## The gate -/

/-- Whether a token of a role can stand in a decimal expression. -/
def Fits (vars : Variables) (t : String) : Role → Prop
  | .var => vars.lookup t = some .integer ∨ vars.lookup t = some .decimal
  | .string | .boolean => False
  | _ => True

variable {vars : Variables} {ts : List String} {rs : List Role}

theorem pass_decimal {t : String} {role : Role} {operands : Nat} {admission : Admission}
    (h : pass vars .decimal operands role t = .ok admission) :
    Fits vars t role ∧ admission.narrows = false := by
  cases role with
  | var =>
    simp only [pass] at h
    cases htype : vars.lookup t with
    | none =>
      rw [htype] at h
      cases h
    | some type =>
      rw [htype] at h
      obtain ⟨_, hadmit, hnarrows⟩ := except_bind_ok.1 h
      cases hnarrows
      refine ⟨?_, Bool.and_false _⟩
      rw [Fits, htype]
      cases type with
      | integer => exact .inl rfl
      | decimal => exact .inr rfl
      | _ => cases hadmit
  | string => cases h
  | boolean => cases h
  | _ =>
    cases h
    exact ⟨trivial, rfl⟩

theorem Fits.pass {t : String} {role : Role} (h : Fits vars t role) (operands : Nat) :
    ∃ admission, pass vars .decimal operands role t = .ok admission ∧
      admission.narrows = false := by
  cases role with
  | var =>
    have hpass : ∃ type, vars.lookup t = some type ∧
        admitVariable t type .decimal operands = .ok () := by
      rcases h with h | h
      · exact ⟨.integer, h, rfl⟩
      · exact ⟨.decimal, h, rfl⟩
    obtain ⟨type, htype, hadmit⟩ := hpass
    refine ⟨⟨true, false⟩, ?_, rfl⟩
    simp only [Expression.pass, htype, hadmit]
    exact congrArg (fun b => Except.ok (Admission.mk true b)) (Bool.and_false _)
  | string => exact absurd h id
  | boolean => exact absurd h id
  | _ => exact ⟨_, rfl, rfl⟩

/-- The tokens that the gate of decimals lets through, with the roles that they have. The flag says
whether a `sub` at the head is a sign. -/
inductive Gated (vars : Variables) : Bool → List String → List Role → Prop
  | nil {sign : Bool} : Gated vars sign [] []
  | negated {n : String} {ts : List String} {rs : List Role} (hn : Numeral n)
      (h : Gated vars false ts rs) : Gated vars true ("sub" :: n :: ts) (.number :: rs)
  | token {sign : Bool} {t : String} {role : Role} {ts : List String} {rs : List Role}
      (hsub : t = "sub" → sign = false) (hrole : HasRole t role) (hfits : Fits vars t role)
      (h : Gated vars role.admitsSign ts rs) : Gated vars sign (t :: ts) (role :: rs)

theorem Passes.gated {sign : Bool} {operands : Nat} {narrows : Bool}
    (h : Passes vars .decimal sign operands ts rs narrows) :
    Gated vars sign ts rs ∧ narrows = false := by
  induction h with
  | nil => exact ⟨.nil, rfl⟩
  | negated hn _ _ ih => exact ⟨.negated hn ih.1, ih.2⟩
  | token hsub hrole hpass _ ih =>
    obtain ⟨hfits, hwide⟩ := pass_decimal hpass
    refine ⟨.token hsub hrole hfits ih.1, ?_⟩
    rw [hwide, ih.2]
    rfl

theorem Gated.gate {sign : Bool} (h : Gated vars sign ts rs) (prev : Option String)
    (hprev : isSignAfter prev = sign) (operands : Nat) :
    ∃ items, gate vars .decimal prev operands ts = .ok (items, false) ∧
      items.map (·.role) = rs := by
  induction h generalizing prev operands with
  | nil => exact ⟨[], rfl, rfl⟩
  | @negated n ts rs hn _ ih =>
    have hnumber := Literal.isNumber_iff.2 hn
    obtain ⟨items, hitems, hroles⟩ :=
      ih (some n) (isSignAfter_eq (role?_of_isNumber hnumber)) (operands + 1)
    refine ⟨⟨.number, "-" ++ n⟩ :: items, ?_, by rw [List.map_cons, hroles]⟩
    rw [Expression.gate, hprev, beq_self_eq_true, Bool.and_self, if_pos rfl]
    dsimp only
    rw [if_pos hnumber, hitems]
    rfl
  | @token sign t role ts rs hsub hrole hfits _ ih =>
    obtain ⟨admission, hpass, hwide⟩ := hfits.pass operands
    obtain ⟨items, hitems, hroles⟩ := ih (some t) (isSignAfter_eq hrole.role?)
      (if admission.isOperand then operands + 1 else operands)
    refine ⟨⟨role, t⟩ :: items, ?_, by rw [List.map_cons, hroles]⟩
    have hno : (t == "sub" && isSignAfter prev) = false := by
      rw [hprev, Bool.and_eq_false_iff, beq_eq_false_iff_ne]
      by_cases ht : t = "sub"
      · exact .inr (hsub ht)
      · exact .inl ht
    rw [Expression.gate.eq_def]
    dsimp only
    rw [hno, if_neg Bool.false_ne_true, hrole.role?]
    dsimp only
    rw [hpass]
    refine except_bind_ok.2 ⟨admission, rfl, except_bind_ok.2 ⟨(items, false), hitems, ?_⟩⟩
    dsimp only
    rw [hwide]
    rfl

/-! ## From roles to sums and back -/

/-- Tokens that are let through as a part of the acceptor's grammar start with a part of a sum. -/
def Spelled (vars : Variables) : Part → List Role → Prop
  | .atom _, roles => ∀ ts rs, Gated vars true ts (roles ++ rs) →
      ∃ x t, ts = x ++ t ∧ Sums vars .operand x ∧ Gated vars false t rs
  | .rest _, roles => ∀ ts rs, Gated vars false ts (roles ++ rs) →
      ∃ x t, ts = x ++ t ∧ Sums vars .rest x ∧ Gated vars false t rs
  | .chain, roles => ∀ ts rs, Gated vars true ts (roles ++ rs) →
      ∃ x t, ts = x ++ t ∧ Sums vars .sum x ∧ Gated vars false t rs
  | .whole, roles => ∀ ts, Gated vars true ts roles → Sums vars .sum ts

/-- A token whose role is an operator is the word of that operator. -/
theorem Gated.operator {op : Role} (hop : op.IsOperator) (h : Gated vars false ts (op :: rs)) :
    ∃ word t, ts = word :: t ∧ word ∈ ["add", "sub", "mul", "div"] ∧ Gated vars true t rs := by
  cases h with
  | token _ hrole _ h =>
    cases hrole with
    | plus => exact ⟨_, _, rfl, by decide, h⟩
    | minus => exact ⟨_, _, rfl, by decide, h⟩
    | times => exact ⟨_, _, rfl, by decide, h⟩
    | divided => exact ⟨_, _, rfl, by decide, h⟩
    | _ => rcases hop with hop | hop | hop | hop <;> cases hop

/-- The only sign in front of a sum is `add`, since `sub` is taken for the sign of a number. -/
theorem Gated.sign {sign : Role} (hsign : sign.IsSign) (h : Gated vars true ts (sign :: rs)) :
    ∃ t, ts = "add" :: t ∧ Gated vars true t rs := by
  cases h with
  | negated => rcases hsign with hsign | hsign <;> cases hsign
  | token hsub hrole _ h =>
    cases hrole with
    | plus => exact ⟨_, rfl, h⟩
    | minus => exact absurd (hsub rfl) (by decide)
    | _ => rcases hsign with hsign | hsign <;> cases hsign

theorem Formed.spelled (vars : Variables) {part : Part} {roles : List Role}
    (h : Formed part roles) : Spelled vars part roles := by
  induction h with
  | number =>
    intro ts rs h
    cases h with
    | negated hn h => exact ⟨_, _, rfl, .negated hn, h⟩
    | token _ hrole _ h =>
      cases hrole with
      | number hn => exact ⟨[_], _, rfl, .number hn, h⟩
  | var =>
    intro ts rs h
    cases h with
    | token _ hrole hfits h =>
      cases hrole with
      | name hx hfree =>
        exact ⟨[_], _, rfl, .named ⟨Literal.chars_of_isIdentifier hx, hfree, hfits⟩, h⟩
  | string =>
    intro ts rs h
    cases h with
    | token _ _ hfits _ => exact absurd hfits id
  | group _ ih =>
    intro ts rs h
    rw [List.cons_append, List.append_assoc] at h
    cases h with
    | token _ hrole _ hinner =>
      cases hrole
      obtain ⟨x, t, rfl, hx, hbehind⟩ := ih _ _ hinner
      cases hbehind with
      | token _ hrole _ hrest =>
        cases hrole
        exact ⟨"(" :: (x ++ [")"]), _, by simp, .group hx, hrest⟩
  | done => exact fun ts rs h => ⟨[], ts, rfl, .done, h⟩
  | more hop _ _ _ iha ihr =>
    intro ts rs h
    rw [List.cons_append, List.append_assoc] at h
    obtain ⟨word, t, rfl, hword, hatom⟩ := h.operator hop
    obtain ⟨x, t, rfl, hx, hmore⟩ := iha _ _ hatom
    obtain ⟨r, t, rfl, hr, hrest⟩ := ihr _ _ hmore
    exact ⟨word :: (x ++ r), t, by simp, .more hword hx hr, hrest⟩
  | plain _ _ iha ihr =>
    intro ts rs h
    rw [List.append_assoc] at h
    obtain ⟨x, t, rfl, hx, hmore⟩ := iha _ _ h
    obtain ⟨r, t, rfl, hr, hrest⟩ := ihr _ _ hmore
    exact ⟨x ++ r, t, by simp, .plain hx hr, hrest⟩
  | signed hsign _ _ iha ihr =>
    intro ts rs h
    rw [List.cons_append, List.append_assoc] at h
    obtain ⟨t, rfl, hatom⟩ := h.sign hsign
    obtain ⟨x, t, rfl, hx, hmore⟩ := iha _ _ hatom
    obtain ⟨r, t, rfl, hr, hrest⟩ := ihr _ _ hmore
    exact ⟨"add" :: (x ++ r), t, by simp, .added hx hr, hrest⟩
  | value _ ih =>
    intro ts h
    obtain ⟨x, t, rfl, hx, h⟩ := ih ts [] (by rwa [List.append_nil])
    cases h
    rwa [List.append_nil]
  | truth =>
    intro ts h
    cases h with
    | token _ _ hfits _ => exact absurd hfits id

/-- How a part of a sum is let through. -/
def Admitted (vars : Variables) : SumPart → List String → Prop
  | .operand, x => ∃ a, Formed (.atom false) a ∧ ∀ t rs, Gated vars false t rs →
      Gated vars true (x ++ t) (a ++ rs)
  | .rest, x => ∃ r, Formed (.rest false) r ∧ ∀ t rs, Gated vars false t rs →
      Gated vars false (x ++ t) (r ++ rs)
  | .sum, x => ∃ c, Formed .chain c ∧ ∀ t rs, Gated vars false t rs →
      Gated vars true (x ++ t) (c ++ rs)

theorem isOperator_of_word (vars : Variables) {word : String}
    (h : word ∈ ["add", "sub", "mul", "div"]) :
    ∃ op : Role, op.IsOperator ∧ HasRole word op ∧ Fits vars word op ∧ op.admitsSign = true := by
  simp only [List.mem_cons, List.not_mem_nil, or_false] at h
  rcases h with rfl | rfl | rfl | rfl
  · exact ⟨.plus, .inl rfl, .plus, trivial, rfl⟩
  · exact ⟨.minus, .inr (.inl rfl), .minus, trivial, rfl⟩
  · exact ⟨.times, .inr (.inr (.inl rfl)), .times, trivial, rfl⟩
  · exact ⟨.over, .inr (.inr (.inr rfl)), .divided, trivial, rfl⟩

theorem Sums.admitted {part : SumPart} (h : Sums vars part ts) : Admitted vars part ts := by
  induction h with
  | @number n hn =>
    refine ⟨[.number], .number, fun t rs h => .token ?_ (.number hn) trivial h⟩
    rintro rfl
    exact absurd (Literal.isNumber_iff.2 hn) (by decide)
  | negated hn => exact ⟨[.number], .number, fun t rs h => .negated hn h⟩
  | @named x hx =>
    obtain ⟨c, cs, hcs, hc, hall⟩ := hx.isIdentifier
    have hid : Literal.isIdentifier x = true := by
      rw [Literal.isIdentifier, hcs]
      exact Bool.and_eq_true_iff.2 ⟨hc, List.all_eq_true.2 hall⟩
    refine ⟨[.var], .var, fun t rs h => .token ?_ (.name hid hx.isFree) hx.isNumeric h⟩
    rintro rfl
    exact absurd hx.isFree (by decide)
  | @group s _ ih =>
    obtain ⟨c, hc, hgate⟩ := ih
    refine ⟨.opening :: (c ++ [.closing]), .group hc, fun t rs h => ?_⟩
    have hclosing : Gated vars false (")" :: t) (.closing :: rs) :=
      .token (by decide) .closing trivial h
    have hopening :
        Gated vars true ("(" :: (s ++ (")" :: t))) (.opening :: (c ++ (.closing :: rs))) :=
      .token (by decide) .opening trivial (hgate _ _ hclosing)
    simpa using hopening
  | done => exact ⟨[], .done, fun t rs h => h⟩
  | @more word x r hword _ _ ihx ihr =>
    obtain ⟨op, hop, hrole, hfits, hsign⟩ := isOperator_of_word vars hword
    obtain ⟨a, ha, hgatex⟩ := ihx
    obtain ⟨b, hb, hgater⟩ := ihr
    refine ⟨op :: (a ++ b), .more hop (by simp) ha hb, fun t rs h => ?_⟩
    have hrest := hgatex _ _ (hgater t rs h)
    rw [← hsign] at hrest
    have htoken : Gated vars false (word :: (x ++ (r ++ t))) (op :: (a ++ (b ++ rs))) :=
      .token (fun _ => rfl) hrole hfits hrest
    simpa using htoken
  | @plain x r _ _ ihx ihr =>
    obtain ⟨a, ha, hgatex⟩ := ihx
    obtain ⟨b, hb, hgater⟩ := ihr
    refine ⟨a ++ b, .plain ha hb, fun t rs h => ?_⟩
    simpa using hgatex _ _ (hgater t rs h)
  | @added x r _ _ ihx ihr =>
    obtain ⟨a, ha, hgatex⟩ := ihx
    obtain ⟨b, hb, hgater⟩ := ihr
    refine ⟨.plus :: (a ++ b), .signed (.inl rfl) ha hb, fun t rs h => ?_⟩
    have htoken : Gated vars true ("add" :: (x ++ (r ++ t))) (.plus :: (a ++ (b ++ rs))) :=
      .token (by decide) .plus trivial (hgatex _ _ (hgater t rs h))
    simpa using htoken

/-! ## The check of an expression -/

theorem check_decimal_ok {expr : String} {e : Expression} (h : check vars expr .decimal = .ok e) :
    Sums vars .sum (cut expr) ∧ e = ⟨cut expr, false⟩ := by
  obtain ⟨hatoms, roles, haccepted⟩ := check_accepted h
  obtain ⟨hgated, hnarrows⟩ := haccepted.passes.gated
  refine ⟨hatoms ▸ haccepted.formed.spelled vars _ hgated, ?_⟩
  rw [← hatoms, ← hnarrows]

theorem Sums.check {expr : String} (h : Sums vars .sum (cut expr)) :
    check vars expr .decimal = .ok ⟨cut expr, false⟩ := by
  obtain ⟨c, hc, hgated⟩ := h.admitted
  have hall : Gated vars true (cut expr) c := by
    simpa using hgated [] [] .nil
  obtain ⟨items, hgate, hroles⟩ := hall.gate none rfl 0
  have haccept : accept items = .ok () := by
    rw [accept_ok_iff, hroles]
    exact .value hc
  have hsome : (cut expr).isEmpty = false := by
    cases hcut : cut expr with
    | nil =>
      rw [hcut] at hgate
      cases hgate
      cases haccept
    | cons t ts => rfl
  unfold Expression.check
  rw [if_neg (by decide)]
  dsimp only
  rw [hsome, if_neg Bool.false_ne_true, hgate]
  change (do accept items; finish .decimal items; return (⟨cut expr, false⟩ : Expression)) = _
  rw [haccept]
  rfl

/-- A text is a decimal expression exactly if its tokens form a sum. It never narrows, and its text
is that of the tokens with single spaces between them. -/
theorem decimal_iff_sum (vars : Variables) (expr : String) :
    ((∃ e, check vars expr .decimal = .ok e) ↔ Sums vars .sum (cut expr)) ∧
      ∀ e, check vars expr .decimal = .ok e →
        e.narrowing = false ∧ e.text = Text.spaced (cut expr) := by
  refine ⟨⟨?_, fun h => ⟨_, h.check⟩⟩, ?_⟩
  · rintro ⟨e, h⟩
    exact (check_decimal_ok h).1
  · intro e h
    rw [(check_decimal_ok h).2]
    exact ⟨rfl, rfl⟩

/-- A group with a leading `add`, a negated number behind an operator, and an operator word that
touches a digit. -/
theorem decimal_iff_sum_nested :
    ∃ e, check [("d", .decimal), ("i", .integer)] "(add i sub sub 2.5) mul3 div d" .decimal =
        .ok e ∧
      Sums [("d", .decimal), ("i", .integer)] .sum
        ["(", "add", "i", "sub", "sub", "2.5", ")", "mul", "3", "div", "d"] ∧
      e.narrowing = false ∧ e.text = "( add i sub sub 2.5 ) mul 3 div d" := by
  let vars : Variables := [("d", .decimal), ("i", .integer)]
  let expr := "(add i sub sub 2.5) mul3 div d"
  have hcut : cut expr = ["(", "add", "i", "sub", "sub", "2.5", ")", "mul", "3", "div", "d"] := by
    decide +kernel
  have hok : check vars expr .decimal = .ok ⟨cut expr, false⟩ := by
    rw [hcut]
    exact except_toOption_eq_some.1 (by decide +kernel)
  obtain ⟨hiff, hout⟩ := decimal_iff_sum vars expr
  refine ⟨_, hok, hcut ▸ hiff.1 ⟨_, hok⟩, (hout _ hok).1, ?_⟩
  rw [(hout _ hok).2, hcut]
  decide +kernel

end Courtesy.Expression
