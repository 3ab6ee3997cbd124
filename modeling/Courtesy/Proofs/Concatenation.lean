import Courtesy.Proofs.AtomTokens

/-!
# Types of concatenations

A text expression is lowered to a sum of the target language, where `+` adds two numbers and joins
anything else to a string, and a sign applies to numbers alone. `Target.Term` is such a sum as a
tree, and `Target.HasType` has one rule for each of its nodes.

The code of every accepted text expression is such a tree (`Accepted.exists_term`). All its operands
have a type, a minus stands in front of numbers only, and the first operand is a text
(`Accepted.typeable`, `Passes.holds_text`). What is left open is the sign `+`, which is let through
in front of a text: the tree is a string exactly if no such sign is in it.
-/

namespace Courtesy

namespace Target

/-! ## Terms -/

/-- The tokens that stand for a value. -/
def IsOperand (t : String) : Prop :=
  Literal.Numeral t ∨ Literal.isString t = true ∨ Literal.isIdentifier t = true

/-- The tokens that stand between values. -/
def marks : List String := ["(", ")", "+", "-", "*", "/"]

/-- How tightly a term is bound: a sum is an operand of a sign or of another sum only in
parentheses, or as the left side of a sum. -/
inductive Level where
  | tight
  | sum

/-- The trees of the target language that consist of sums, signs and parentheses. -/
inductive Term : Level → Type
  | token (t : String) (h : IsOperand t) : Term .tight
  | group (x : Term .sum) : Term .tight
  | plus (x : Term .tight) : Term .tight
  | minus (x : Term .tight) : Term .tight
  | single (x : Term .tight) : Term .sum
  | sum (x : Term .sum) (y : Term .tight) : Term .sum

namespace Term

def tokens {level : Level} : Term level → List String
  | token t _ => [t]
  | group x => "(" :: (x.tokens ++ [")"])
  | plus x => "+" :: x.tokens
  | minus x => "-" :: x.tokens
  | single x => x.tokens
  | sum x y => x.tokens ++ "+" :: y.tokens

/-- Every term has an operand. -/
theorem exists_operand {level : Level} (x : Term level) : ∃ t ∈ x.tokens, IsOperand t := by
  induction x with
  | token t h => exact ⟨t, List.mem_singleton_self t, h⟩
  | group x ih =>
    obtain ⟨t, ht, h⟩ := ih
    exact ⟨t, List.mem_cons_of_mem _ (List.mem_append_left _ ht), h⟩
  | plus x ih | minus x ih =>
    obtain ⟨t, ht, h⟩ := ih
    exact ⟨t, List.mem_cons_of_mem _ ht, h⟩
  | single x ih => exact ih
  | sum x y ihx _ =>
    obtain ⟨t, ht, h⟩ := ihx
    exact ⟨t, List.mem_append_left _ ht, h⟩

theorem length_tokens_pos {level : Level} (x : Term level) : 0 < x.tokens.length := by
  obtain ⟨t, ht, -⟩ := x.exists_operand
  exact List.length_pos_of_mem ht

/-- A tight term that starts with a number is that number. -/
theorem eq_token_of_numeral {x : Term .tight} {n : String} {rest : List String}
    (hn : Literal.Numeral n) (h : x.tokens = n :: rest) : ∃ hop, x = token n hop := by
  have hnumber := Literal.isNumber_iff.2 hn
  cases x with
  | token t hop =>
    obtain ⟨rfl, -⟩ := List.cons.inj h
    exact ⟨hop, rfl⟩
  | group x | plus x | minus x =>
    obtain ⟨rfl, -⟩ := List.cons.inj h
    exact absurd hnumber (by decide)

end Term

/-! ## Types -/

inductive Ty where
  | number
  | string
  deriving DecidableEq, Repr

/-- The type of a sum. -/
def Ty.join : Ty → Ty → Ty
  | number, number => number
  | _, _ => string

theorem Ty.join_eq_string {σ τ : Ty} : σ.join τ = .string ↔ σ = .string ∨ τ = .string := by
  cases σ <;> cases τ <;> decide

/-- String literals and variables declared as text. -/
def IsText (vars : Variables) (t : String) : Prop :=
  Literal.isString t = true ∨ (Literal.isIdentifier t = true ∧ vars.lookup t = some .text)

/-- Numeric literals and numeric variables. -/
def IsAmount (vars : Variables) (t : String) : Prop :=
  Literal.Numeral t ∨
    (Literal.isIdentifier t = true ∧ ∃ type, vars.lookup t = some type ∧ type.isNumeric = true)

/-- The types of terms over given variables. -/
inductive HasType (vars : Variables) : {level : Level} → Term level → Ty → Prop
  | amount {t : String} {h : IsOperand t} (ht : IsAmount vars t) : HasType vars (.token t h) .number
  | text {t : String} {h : IsOperand t} (ht : IsText vars t) : HasType vars (.token t h) .string
  | group {x : Term .sum} {τ : Ty} (hx : HasType vars x τ) : HasType vars (.group x) τ
  | plus {x : Term .tight} (hx : HasType vars x .number) : HasType vars (.plus x) .number
  | minus {x : Term .tight} (hx : HasType vars x .number) : HasType vars (.minus x) .number
  | single {x : Term .tight} {τ : Ty} (hx : HasType vars x τ) : HasType vars (.single x) τ
  | sum {x : Term .sum} {y : Term .tight} {σ τ : Ty} (hx : HasType vars x σ)
      (hy : HasType vars y τ) : HasType vars (.sum x y) (σ.join τ)

/-- No sign `+` of a term stands in front of a text or of parentheses that hold one. -/
def Term.SignsNumbers (vars : Variables) {level : Level} : Term level → Prop
  | .token _ _ => True
  | .group x => x.SignsNumbers vars
  | .plus x => (∀ t ∈ x.tokens, ¬ IsText vars t) ∧ x.SignsNumbers vars
  | .minus x => x.SignsNumbers vars
  | .single x => x.SignsNumbers vars
  | .sum x y => x.SignsNumbers vars ∧ y.SignsNumbers vars

instance {vars : Variables} {t : String} : Decidable (IsText vars t) :=
  inferInstanceAs (Decidable (_ ∨ _))

instance Term.decidableSignsNumbers (vars : Variables) {level : Level} :
    (x : Term level) → Decidable (x.SignsNumbers vars)
  | .token _ _ => .isTrue trivial
  | .group x => decidableSignsNumbers vars x
  | .plus x =>
    have := decidableSignsNumbers vars x
    inferInstanceAs (Decidable ((∀ t ∈ x.tokens, ¬ IsText vars t) ∧ x.SignsNumbers vars))
  | .minus x => decidableSignsNumbers vars x
  | .single x => decidableSignsNumbers vars x
  | .sum x y =>
    have := decidableSignsNumbers vars x
    have := decidableSignsNumbers vars y
    inferInstanceAs (Decidable (x.SignsNumbers vars ∧ y.SignsNumbers vars))

section

variable {vars : Variables} {t : String}

theorem IsAmount.not_isText (h : IsAmount vars t) : ¬ IsText vars t := by
  rcases h with hn | ⟨hid, type, htype, hnumeric⟩
  · have hnumber := Literal.isNumber_iff.2 hn
    rintro (hs | ⟨hid, -⟩)
    · rw [Expression.isNumber_of_isString hs] at hnumber
      cases hnumber
    · rw [Expression.isNumber_of_isIdentifier hid] at hnumber
      cases hnumber
  · rintro (hs | ⟨-, htext⟩)
    · rw [Expression.isString_of_isIdentifier hid] at hs
      cases hs
    · rw [htype] at htext
      cases htext
      cases hnumeric

theorem not_isOperand_mark (h : t ∈ marks) : ¬ IsOperand t := by
  have hno : ∀ u ∈ marks, Literal.isNumber u = false ∧ Literal.isString u = false ∧
      Literal.isIdentifier u = false := by decide
  obtain ⟨hn, hs, hid⟩ := hno t h
  rw [IsOperand, ← Literal.isNumber_iff, hn, hs, hid]
  decide

theorem IsText.isOperand (h : IsText vars t) : IsOperand t := .inr (h.imp id And.left)

theorem not_isText_mark (h : t ∈ marks) : ¬ IsText vars t :=
  fun ht => not_isOperand_mark h ht.isOperand

/-- A text is among the tokens. -/
def HoldsText (vars : Variables) (ts : List String) : Prop := ∃ t ∈ ts, IsText vars t

theorem holdsText_append {ts us : List String} :
    HoldsText vars (ts ++ us) ↔ HoldsText vars ts ∨ HoldsText vars us := by
  simp [HoldsText, or_and_right, exists_or]

theorem holdsText_mark (h : t ∈ marks) {ts : List String} :
    HoldsText vars (t :: ts) ↔ HoldsText vars ts := by
  simp [HoldsText, not_isText_mark h]

variable {level : Level} {x : Term level} {τ : Ty}

/-- A term is a string if a text is in it, wherever it stands. -/
theorem HasType.string_iff (h : HasType vars x τ) : τ = .string ↔ HoldsText vars x.tokens := by
  induction h with
  | amount ht => simp [Term.tokens, HoldsText, ht.not_isText]
  | text ht => simp [Term.tokens, HoldsText, ht]
  | group _ ih =>
    rw [ih, Term.tokens, holdsText_mark (by decide), holdsText_append,
      holdsText_mark (by decide)]
    simp [HoldsText]
  | plus _ ih => rwa [Term.tokens, holdsText_mark (by decide)]
  | minus _ ih => rwa [Term.tokens, holdsText_mark (by decide)]
  | single _ ih => exact ih
  | sum _ _ ihx ihy =>
    rw [Ty.join_eq_string, ihx, ihy, Term.tokens, holdsText_append, holdsText_mark (by decide)]

theorem HasType.signsNumbers (h : HasType vars x τ) : x.SignsNumbers vars := by
  induction h with
  | amount | text => trivial
  | group _ ih | minus _ ih | single _ ih => exact ih
  | plus hx ih =>
    refine ⟨fun t ht htext => ?_, ih⟩
    cases hx.string_iff.2 ⟨t, ht, htext⟩
  | sum _ _ ihx ihy => exact ⟨ihx, ihy⟩

/-- Tokens of which every operand has a type and every minus stands in front of a number. -/
structure Typeable (vars : Variables) (ts : List String) : Prop where
  operand : ∀ t ∈ ts, IsOperand t → IsAmount vars t ∨ IsText vars t
  minus : ∀ t, ["-", t] <:+: ts → Literal.Numeral t

theorem Typeable.of_infix {ts us : List String} (h : Typeable vars ts) (hus : us <:+: ts) :
    Typeable vars us :=
  ⟨fun t ht => h.operand t (hus.subset ht), fun t ht => h.minus t (ht.trans hus)⟩

/-- Of such tokens only a sign `+` in front of a text has no type. -/
theorem Typeable.hasType (h : Typeable vars x.tokens) (hsigns : x.SignsNumbers vars) :
    ∃ τ, HasType vars x τ := by
  induction x with
  | token t hop =>
    rcases h.operand t (List.mem_singleton_self t) hop with ht | ht
    · exact ⟨_, .amount ht⟩
    · exact ⟨_, .text ht⟩
  | group x ih =>
    obtain ⟨τ, hx⟩ := ih (h.of_infix ⟨["("], [")"], rfl⟩) hsigns
    exact ⟨τ, .group hx⟩
  | plus x ih =>
    obtain ⟨τ, hx⟩ := ih (h.of_infix (List.suffix_cons _ _).isInfix) hsigns.2
    cases τ with
    | number => exact ⟨_, .plus hx⟩
    | string =>
      obtain ⟨t, ht, htext⟩ := hx.string_iff.1 rfl
      exact absurd htext (hsigns.1 t ht)
  | minus x =>
    cases htokens : x.tokens with
    | nil => exact absurd x.length_tokens_pos (by simp [htokens])
    | cons n rest =>
      have hfront : ["-", n] <:+: "-" :: x.tokens := by
        rw [htokens]
        exact (List.prefix_append ["-", n] rest).isInfix
      have hn := h.minus n hfront
      -- no tight term but the number itself starts with a number
      obtain ⟨hop, rfl⟩ := Term.eq_token_of_numeral hn htokens
      exact ⟨_, .minus (.amount (.inl hn))⟩
  | single x ih =>
    obtain ⟨τ, hx⟩ := ih h hsigns
    exact ⟨τ, .single hx⟩
  | sum x y ihx ihy =>
    have hright : y.tokens <:+: x.tokens ++ "+" :: y.tokens :=
      ((List.suffix_cons "+" y.tokens).trans (List.suffix_append _ _)).isInfix
    obtain ⟨σ, hx⟩ := ihx (h.of_infix (List.prefix_append _ _).isInfix) hsigns.1
    obtain ⟨τ, hy⟩ := ihy (h.of_infix hright) hsigns.2
    exact ⟨_, .sum hx hy⟩

end

end Target

namespace Expression

open Target

/-! ## From roles to terms -/

section

variable {vars : Variables}

/-- Atoms that are let through behind some operands. -/
def Lets (vars : Variables) (sign : Bool) (ts : List String) (rs : List Role) : Prop :=
  ∃ operands narrows, Passes vars .text sign operands ts rs narrows

/-- The first role belongs to a negated number or to an atom. -/
theorem Lets.cases {sign : Bool} {ts : List String} {role : Role} {rs : List Role}
    (h : Lets vars sign ts (role :: rs)) :
    (∃ n t, ts = "sub" :: n :: t ∧ Literal.Numeral n ∧ role = .number ∧ Lets vars false t rs) ∨
    ∃ u t, ts = u :: t ∧ HasRole u role ∧ Lets vars role.admitsSign t rs := by
  obtain ⟨operands, narrows, h⟩ := h
  cases h with
  | negated hn _ h => exact .inl ⟨_, _, rfl, hn, rfl, _, _, h⟩
  | token _ hrole _ h => exact .inr ⟨_, _, rfl, hrole, _, _, h⟩

/-- A role that no number has belongs to an atom. -/
theorem Lets.token {sign : Bool} {ts : List String} {role : Role} {rs : List Role}
    (h : Lets vars sign ts (role :: rs)) (hne : role ≠ .number) :
    ∃ u t, ts = u :: t ∧ HasRole u role ∧ Lets vars role.admitsSign t rs := by
  rcases h.cases with ⟨_, _, _, _, hnumber, _⟩ | h
  · exact absurd hnumber hne
  · exact h

/-- Atoms are lowered to a term. -/
def Spells (level : Level) (ts : List String) : Prop :=
  ∃ x : Term level, x.tokens = ts.map symbol

/-- Atoms go on with any sum in front of them. -/
def Extends (ts : List String) : Prop :=
  ∀ x : Term .sum, ∃ y : Term .sum, y.tokens = x.tokens ++ ts.map symbol

theorem Spells.extended {a r : List String} (ha : Spells .tight a) (hr : Extends r) :
    Spells .sum (a ++ r) := by
  obtain ⟨x, hx⟩ := ha
  obtain ⟨y, hy⟩ := hr (.single x)
  exact ⟨y, by rw [hy, Term.tokens, hx, List.map_append]⟩

/-- Only what a sign can stand behind is lowered to something else. -/
theorem HasRole.symbol_self {t : String} {role : Role} (h : HasRole t role)
    (hsign : role.admitsSign = false) : Target.symbol t = t := by
  have hwords : ∀ p ∈ Vocabulary.arithmetic,
      (Expression.role? p.1).all Role.admitsSign = true := by decide
  rw [h.symbol]
  cases hop : Vocabulary.arithmetic.lookup t with
  | none => rfl
  | some op =>
    have hall := hwords _ (mem_of_lookup hop)
    rw [h.role?] at hall
    rw [show role.admitsSign = true from hall] at hsign
    cases hsign

theorem HasRole.spells {t : String} {role : Role} (h : HasRole t role)
    (hsign : role.admitsSign = false) (hop : IsOperand t) : Spells .tight [t] :=
  ⟨.token t hop, by rw [Term.tokens, List.map_singleton, h.symbol_self hsign]⟩

/-- Atoms that are let through as a part of the acceptor's grammar start with a part of a term. -/
def Parsed (vars : Variables) : Part → List Role → Prop
  | .atom _, roles => ∀ ts rs, Lets vars true ts (roles ++ rs) →
      ∃ x t, ts = x ++ t ∧ Spells .tight x ∧ Lets vars false t rs
  | .rest _, roles => ∀ ts rs, Lets vars false ts (roles ++ rs) →
      ∃ x t, ts = x ++ t ∧ Extends x ∧ Lets vars false t rs
  | .chain, roles => ∀ ts rs, Lets vars true ts (roles ++ rs) →
      ∃ x t, ts = x ++ t ∧ Spells .sum x ∧ Lets vars false t rs
  | .whole, roles => ∀ ts, Lets vars true ts roles → Spells .sum ts

theorem Role.IsOperator.eq_plus {role : Role} (h : role.IsOperator) (hjoins : role.Joins) :
    role = .plus := by
  obtain ⟨hminus, htimes, hover⟩ := hjoins
  rcases h with rfl | rfl | rfl | rfl
  · rfl
  · exact absurd rfl hminus
  · exact absurd rfl htimes
  · exact absurd rfl hover

theorem Lets.plus {sign : Bool} {ts : List String} {rs : List Role}
    (h : Lets vars sign ts (.plus :: rs)) : ∃ t, ts = "add" :: t ∧ Lets vars true t rs := by
  obtain ⟨u, t, rfl, hrole, hrest⟩ := h.token (by decide)
  cases hrole
  exact ⟨t, rfl, hrest⟩

/-- Behind an atom what is let through goes on with the rest of a chain. -/
theorem Parsed.followed {s : Bool} {a r rs : List Role} {ts : List String}
    (ha : Parsed vars (.atom s) a) (hr : Parsed vars (.rest s) r)
    (h : Lets vars true ts (a ++ (r ++ rs))) :
    ∃ x y t, ts = x ++ (y ++ t) ∧ Spells .tight x ∧ Extends y ∧ Lets vars false t rs := by
  obtain ⟨x, t, rfl, hx, hmore⟩ := ha _ _ h
  obtain ⟨y, t, rfl, hy, hrest⟩ := hr _ _ hmore
  exact ⟨x, y, t, rfl, hx, hy, hrest⟩

theorem Formed.parsed {part : Part} {roles : List Role} (h : Formed part roles)
    (hjoins : ∀ role ∈ roles, role.Joins) : Parsed vars part roles := by
  induction h with
  | number =>
    intro ts rs h
    rcases h.cases with ⟨n, t, rfl, hn, -, h⟩ | ⟨n, t, rfl, hrole, h⟩
    · -- the sign was folded into the number when it was checked, and is a sign of the code again
      have hself := (HasRole.number hn).symbol_self rfl
      refine ⟨["sub", n], t, rfl, ⟨.minus (.token n (.inl hn)), ?_⟩, h⟩
      rw [List.map_cons, List.map_singleton, hself]
      rfl
    · have hop : IsOperand n := by
        cases hrole with
        | number hn => exact .inl hn
      exact ⟨[n], t, rfl, hrole.spells rfl hop, h⟩
  | var =>
    intro ts rs h
    obtain ⟨x, t, rfl, hrole, h⟩ := h.token (by decide)
    exact ⟨[x], t, rfl, hrole.spells rfl (.inr (.inr hrole.named)), h⟩
  | string =>
    intro ts rs h
    obtain ⟨s, t, rfl, hrole, h⟩ := h.token (by decide)
    have hop : IsOperand s := by
      cases hrole with
      | string hs => exact .inr (.inl hs)
    exact ⟨[s], t, rfl, hrole.spells rfl hop, h⟩
  | group _ ih =>
    intro ts rs h
    obtain ⟨-, hinside⟩ := List.forall_mem_cons.1 hjoins
    rw [List.cons_append, List.append_assoc] at h
    obtain ⟨_, _, rfl, hopening, hinner⟩ := h.token (by decide)
    cases hopening
    obtain ⟨x, _, rfl, ⟨y, hy⟩, hbehind⟩ := ih (List.forall_mem_append.1 hinside).1 _ _ hinner
    obtain ⟨_, t, rfl, hclosing, hrest⟩ := hbehind.token (by decide)
    cases hclosing
    refine ⟨"(" :: (x ++ [")"]), t, by simp, ⟨.group y, ?_⟩, hrest⟩
    rw [Term.tokens, hy, List.map_cons, List.map_append]
    rfl
  | done => exact fun ts rs h => ⟨[], ts, rfl, fun x => ⟨x, (List.append_nil _).symm⟩, h⟩
  | more hop _ _ _ iha ihr =>
    intro ts rs h
    obtain ⟨hplus, hparts⟩ := List.forall_mem_cons.1 hjoins
    obtain ⟨hjoinsa, hjoinsr⟩ := List.forall_mem_append.1 hparts
    rw [hop.eq_plus hplus, List.cons_append, List.append_assoc] at h
    obtain ⟨_, rfl, hatom⟩ := h.plus
    obtain ⟨a, r, t, rfl, ⟨y, hy⟩, hr, hrest⟩ := (iha hjoinsa).followed (ihr hjoinsr) hatom
    refine ⟨"add" :: (a ++ r), t, by simp, fun x => ?_, hrest⟩
    obtain ⟨z, hz⟩ := hr (.sum x y)
    refine ⟨z, ?_⟩
    rw [hz, Term.tokens, hy, List.map_cons, List.map_append, List.append_assoc]
    rfl
  | plain _ _ iha ihr =>
    intro ts rs h
    obtain ⟨hjoinsa, hjoinsr⟩ := List.forall_mem_append.1 hjoins
    rw [List.append_assoc] at h
    obtain ⟨a, r, t, rfl, ha, hr, hrest⟩ := (iha hjoinsa).followed (ihr hjoinsr) h
    exact ⟨a ++ r, t, (List.append_assoc a r t).symm, ha.extended hr, hrest⟩
  | signed hsign _ _ iha ihr =>
    intro ts rs h
    obtain ⟨hplus, hparts⟩ := List.forall_mem_cons.1 hjoins
    obtain ⟨hjoinsa, hjoinsr⟩ := List.forall_mem_append.1 hparts
    have hop : Role.IsOperator _ := hsign.imp id .inl
    rw [hop.eq_plus hplus, List.cons_append, List.append_assoc] at h
    obtain ⟨_, rfl, hatom⟩ := h.plus
    obtain ⟨a, r, t, rfl, ⟨y, hy⟩, hr, hrest⟩ := (iha hjoinsa).followed (ihr hjoinsr) hatom
    have hsigned : Spells .tight ("add" :: a) := ⟨.plus y, by rw [Term.tokens, hy]; rfl⟩
    exact ⟨"add" :: (a ++ r), t, by simp, hsigned.extended hr, hrest⟩
  | value _ ih =>
    intro ts h
    obtain ⟨x, t, rfl, hx, h⟩ := ih hjoins ts [] (by rwa [List.append_nil])
    obtain ⟨_, _, h⟩ := h
    cases h
    rwa [List.append_nil]
  | truth =>
    -- a truth value is no text
    intro ts h
    obtain ⟨_, _, h⟩ := h
    cases h with
    | token _ _ hpass _ => cases hpass

/-! ## Operands of a text -/

/-- What is let through where a text is expected. A number or a numeric variable needs an operand in
front of it. -/
theorem pass_text {t : String} {role : Role} {operands : Nat} {admission : Admission}
    (hrole : HasRole t role) (h : pass vars .text operands role t = .ok admission) :
    (admission.isOperand = true ∧ IsText vars (symbol t)) ∨
    (admission.isOperand = true ∧ operands ≠ 0 ∧ IsAmount vars (symbol t)) ∨
    (admission.isOperand = false ∧ symbol t ∈ marks) := by
  have hself := hrole.symbol_self
  cases hrole with
  | number hn =>
    obtain ⟨_, hadmitted, h⟩ := except_bind_ok.1 h
    cases h
    rw [hself rfl]
    refine .inr (.inl ⟨rfl, ?_, .inl hn⟩)
    rintro rfl
    cases hadmitted
  | string hs =>
    cases h
    rw [hself rfl]
    exact .inl ⟨rfl, .inl hs⟩
  | boolean => cases h
  | name hx =>
    simp only [pass] at h
    rw [hself rfl]
    cases htype : vars.lookup t with
    | none =>
      rw [htype] at h
      cases h
    | some type =>
      rw [htype] at h
      obtain ⟨_, hadmitted, h⟩ := except_bind_ok.1 h
      cases h
      cases type with
      | text => exact .inl ⟨rfl, .inr ⟨hx, htype⟩⟩
      | integer | decimal =>
        refine .inr (.inl ⟨rfl, ?_, .inr ⟨hx, _, htype, rfl⟩⟩)
        rintro rfl
        cases hadmitted
      | _ => cases hadmitted
  | _ =>
    cases h
    exact .inr (.inr ⟨rfl, by decide⟩)

variable {sign : Bool} {operands : Nat} {ts : List String} {rs : List Role} {narrows : Bool}

/-- Every operand of a text has a type. -/
theorem Passes.operand_typed (h : Passes vars .text sign operands ts rs narrows) :
    ∀ t ∈ ts.map symbol, IsOperand t → IsAmount vars t ∨ IsText vars t := by
  induction h with
  | nil => exact List.forall_mem_nil _
  | negated hn _ _ ih =>
    have hself := (HasRole.number hn).symbol_self rfl
    refine List.forall_mem_cons.2 ⟨fun hop => ?_, List.forall_mem_cons.2 ⟨fun _ => ?_, ih⟩⟩
    · exact absurd hop (not_isOperand_mark (by decide))
    · rw [hself]
      exact .inl (.inl hn)
  | token _ hrole hpass _ ih =>
    refine List.forall_mem_cons.2 ⟨fun hop => ?_, ih⟩
    rcases pass_text hrole hpass with ⟨-, ht⟩ | ⟨-, -, ht⟩ | ⟨-, ht⟩
    · exact .inr ht
    · exact .inl ht
    · exact absurd hop (not_isOperand_mark ht)

/-- The first operand of a text is a text. -/
theorem Passes.holds_text (h : Passes vars .text sign operands ts rs narrows)
    (hfirst : operands = 0) (hop : ∃ t ∈ ts.map symbol, IsOperand t) :
    HoldsText vars (ts.map symbol) := by
  induction h with
  | nil =>
    obtain ⟨t, ht, -⟩ := hop
    cases ht
  | negated hn hadmitted =>
    subst hfirst
    cases hadmitted
  | @token sign operands t role admission ts rs narrows _ hrole hpass _ ih =>
    rcases pass_text hrole hpass with ⟨-, ht⟩ | ⟨-, hmore, -⟩ | ⟨hno, ht⟩
    · exact ⟨symbol t, List.mem_cons_self, ht⟩
    · exact absurd hfirst hmore
    · -- a token that is no operand leaves the question to those behind it
      rw [hno, if_neg Bool.false_ne_true] at ih
      rw [List.map_cons, holdsText_mark ht]
      obtain ⟨u, hu, hop⟩ := hop
      rcases List.mem_cons.1 hu with rfl | hu
      · exact absurd hop (not_isOperand_mark ht)
      · exact ih hfirst ⟨u, hu, hop⟩

theorem HasRole.eq_minus {t : String} {role : Role} (h : HasRole t role)
    (ht : Target.symbol t = "-") : role = .minus := by
  cases hsign : role.admitsSign with
  | false =>
    have hrole := h.role?
    rw [← h.symbol_self hsign, ht] at hrole
    cases hrole
  | true =>
    cases h with
    | minus => rfl
    | plus | times | divided | opening => exact absurd ht (by decide)
    | _ => cases hsign

/-- A minus in the code of a text is the sign of a number. -/
theorem Passes.minus_numeral (h : Passes vars .text sign operands ts rs narrows)
    (hjoins : ∀ role ∈ rs, role.Joins) {n : String} (hn : ["-", n] <:+: ts.map symbol) :
    Literal.Numeral n := by
  induction h with
  | nil => simp at hn
  | @negated operands m ts rs narrows hm _ _ ih =>
    rw [List.map_cons, List.map_cons, (HasRole.number hm).symbol_self rfl] at hn
    rcases List.infix_cons_iff.1 hn with hfront | hbehind
    · obtain ⟨rfl, -⟩ := List.cons_prefix_cons.1 (List.cons_prefix_cons.1 hfront).2
      exact hm
    · rcases List.infix_cons_iff.1 hbehind with hfront | hbehind
      · obtain ⟨rfl, -⟩ := List.cons_prefix_cons.1 hfront
        exact absurd (Literal.isNumber_iff.2 hm) (by decide)
      · exact ih (List.forall_mem_cons.1 hjoins).2 hbehind
  | token _ hrole _ _ ih =>
    obtain ⟨hrolejoins, hjoins⟩ := List.forall_mem_cons.1 hjoins
    rcases List.infix_cons_iff.1 hn with hfront | hbehind
    · have hminus := hrole.eq_minus (List.cons_prefix_cons.1 hfront).1.symm
      exact absurd hminus hrolejoins.1
    · exact ih hjoins hbehind

/-! ## Accepted texts -/

variable {e : Expression} {roles : List Role}

theorem Accepted.exists_term (h : Accepted vars .text e roles) : Spells .sum e.atoms :=
  h.formed.parsed (h.joins rfl) e.atoms ⟨_, _, h.passes⟩

theorem Accepted.typeable (h : Accepted vars .text e roles) : Typeable vars (e.atoms.map symbol) :=
  ⟨h.passes.operand_typed, fun _ hn => h.passes.minus_numeral (h.joins rfl) hn⟩

/-- The code of an accepted text expression is a sum of the target language. It is a string
exactly if no sign `+` in it stands in front of a text or of parentheses that hold one. -/
theorem text_string_iff {expr : String} (h : check vars expr .text = .ok e) :
    (∃ x : Term .sum, x.tokens = (tokenize e.text).map symbol ∧
      Target.lower e.text = Text.spaced x.tokens) ∧
    ∀ x : Term .sum, x.tokens = (tokenize e.text).map symbol →
      (HasType vars x .string ↔ x.SignsNumbers vars) := by
  obtain ⟨hcut, roles, haccepted⟩ := check_accepted h
  rw [Target.lower, haccepted.tokenize_text hcut]
  refine ⟨?_, fun x hx => ⟨HasType.signsNumbers, fun hsigns => ?_⟩⟩
  · obtain ⟨x, hx⟩ := haccepted.exists_term
    exact ⟨x, hx, congrArg Text.spaced hx.symm⟩
  · have htypeable := haccepted.typeable
    rw [← hx] at htypeable
    obtain ⟨τ, hτ⟩ := htypeable.hasType hsigns
    have hop := x.exists_operand
    rw [hx] at hop
    have htext := haccepted.passes.holds_text rfl hop
    rw [← hx] at htext
    rwa [hτ.string_iff.2 htext] at hτ

end

/-- A sign in front of a number in parentheses, where the sum with a text behind it is a string. -/
theorem text_string_iff_grouped :
    ∃ e, check [("s", .text), ("n", .integer)] "s add(add n add\"b\")add sub 2" .text = .ok e ∧
      Target.lower e.text = "s + ( + n + \"b\" ) + - 2" ∧
      ∃ x : Term .sum, x.tokens = (tokenize e.text).map symbol ∧
        HasType [("s", .text), ("n", .integer)] x .string := by
  let e : Expression :=
    ⟨["s", "add", "(", "add", "n", "add", "\"b\"", ")", "add", "sub", "2"], false⟩
  have hok : check [("s", .text), ("n", .integer)] "s add(add n add\"b\")add sub 2" .text = .ok e :=
    except_toOption_eq_some.1 (by decide +kernel)
  have htokens : (tokenize e.text).map symbol =
      ["s", "+", "(", "+", "n", "+", "\"b\"", ")", "+", "-", "2"] := by decide +kernel
  let s : Term .tight := .token "s" (.inr (.inr (by decide)))
  let n : Term .tight := .token "n" (.inr (.inr (by decide)))
  let b : Term .tight := .token "\"b\"" (.inr (.inl (by decide)))
  let two : Term .tight := .token "2" (.inl (Literal.isNumber_iff.1 (by decide)))
  let x : Term .sum := .sum (.sum (.single s) (.group (.sum (.single (.plus n)) b))) (.minus two)
  have hx : x.tokens = (tokenize e.text).map symbol := by
    rw [htokens]
    rfl
  refine ⟨e, hok, ?_, x, hx, ?_⟩
  · rw [Target.lower, htokens]
    rfl
  · exact ((text_string_iff hok).2 x hx).2 (by decide)

/-- A sign in front of a text alone is accepted, and its code has no type. -/
theorem text_signed_untyped :
    ∃ e, check [] "add \"a\"" .text = .ok e ∧ Target.lower e.text = "+ \"a\"" ∧
      (∃ x : Term .sum, x.tokens = (tokenize e.text).map symbol) ∧
      ∀ x : Term .sum, x.tokens = (tokenize e.text).map symbol → ∀ τ, ¬ HasType [] x τ := by
  have htokens : (tokenize (Expression.text ⟨["add", "\"a\""], false⟩)).map symbol =
      ["+", "\"a\""] := by decide +kernel
  refine ⟨⟨["add", "\"a\""], false⟩, except_toOption_eq_some.1 (by decide +kernel), ?_, ?_, ?_⟩
  · rw [Target.lower, htokens]
    rfl
  · refine ⟨.single (.plus (.token "\"a\"" (.inr (.inl (by decide))))), ?_⟩
    rw [htokens]
    rfl
  · rw [htokens]
    intro x hx τ h
    have hsigns := h.signsNumbers
    cases x with
    | single x =>
      cases x with
      | token t => cases hx
      | group x => exact absurd (List.cons.inj hx).1 (by decide)
      | plus x =>
        have htext : "\"a\"" ∈ x.tokens := by
          rw [(List.cons.inj hx).2]
          exact List.mem_singleton_self _
        exact hsigns.1 _ htext (by decide)
      | minus x => exact absurd (List.cons.inj hx).1 (by decide)
    | sum x y =>
      have hlength := congrArg List.length hx
      have hleft := x.length_tokens_pos
      have hright := y.length_tokens_pos
      simp only [Term.tokens, List.length_append, List.length_cons, List.length_nil] at hlength
      omega

end Expression

end Courtesy
