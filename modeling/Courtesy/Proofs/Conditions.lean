import Courtesy.Condition
import Courtesy.Proofs.Sums

/-!
# The grammar of conditions

A condition is checked by the type of its first token: boolean operands are compared for equality,
arithmetic sides by any relational phrase, and texts for equality again. `Derives` is the grammar
that this amounts to (`accepted_iff_derives`). Each of the three checks is settled on its own, for
any tokens (`checkBoolean_iff`, `checkNumeric_iff`, `checkText_iff`); what is left is that the first
token of a derived condition leads to the check that accepts it (`Derives.checked`).
-/

namespace Courtesy.Condition

/-- A truth value or a boolean variable. -/
def IsBoolean (vars : Variables) (t : String) : Prop :=
  t = "true" ∨ t = "false" ∨ vars.lookup t = some .boolean

/-- A number, or a numeric variable that is not spelled like an operator. -/
def IsNumeric (vars : Variables) (t : String) : Prop :=
  Literal.Numeral t ∨ (t ∉ ["add", "sub", "mul", "div"] ∧
    (vars.lookup t = some .integer ∨ vars.lookup t = some .decimal))

/-- A text variable or a string. -/
def IsText (vars : Variables) (t : String) : Prop :=
  vars.lookup t = some .text ∨ Literal.isString t = true

/-- Numeric operands with single operator words between them. -/
inductive Alternates (vars : Variables) : List String → Prop
  | last {t : String} (ht : IsNumeric vars t) : Alternates vars [t]
  | more {t op : String} {ts : List String} (ht : IsNumeric vars t)
      (hop : op ∈ ["add", "sub", "mul", "div"]) (hts : Alternates vars ts) :
      Alternates vars (t :: op :: ts)

/-- The tokens of a condition. -/
inductive Derives (vars : Variables) : List String → Prop
  | truth {a : String} (ha : IsBoolean vars a) : Derives vars [a]
  | booleans {a op b : String} (ha : IsBoolean vars a) (hop : op ∈ ["equal to", "different from"])
      (hb : IsBoolean vars b) : Derives vars [a, op, b]
  | numbers {left right : List String} {op : String} (hleft : Alternates vars left)
      (hop : op ∈ ["equal to", "different from", "greater then", "less then",
        "greater or equal to", "less or equal to"])
      (hright : Alternates vars right) : Derives vars (left ++ op :: right)
  | texts {a op b : String} (ha : vars.lookup a = some .text)
      (hop : op ∈ ["equal to", "different from"]) (hb : IsText vars b) : Derives vars [a, op, b]

/-! ## Words -/

theorem isEquality_iff {t : String} :
    Vocabulary.isEquality t = true ↔ t ∈ ["equal to", "different from"] := by
  simp [Vocabulary.isEquality]

theorem isSome_lookup_iff {table : List (String × String)} {t : String} :
    (table.lookup t).isSome = true ↔ t ∈ table.map (·.1) := by
  constructor
  · intro h
    obtain ⟨op, hop⟩ := Option.isSome_iff_exists.1 h
    exact List.mem_map_of_mem (mem_of_lookup hop)
  · intro h
    cases hlookup : table.lookup t with
    | some op => rfl
    | none =>
      obtain ⟨p, hp, rfl⟩ := List.mem_map.1 h
      have hno := List.lookup_eq_none_iff.1 hlookup p hp
      simp at hno

theorem isArithmetic_iff {t : String} :
    Vocabulary.isArithmetic t = true ↔ t ∈ ["add", "sub", "mul", "div"] :=
  isSome_lookup_iff

theorem isRelational_iff {t : String} :
    Vocabulary.isRelational t = true ↔
      t ∈ ["equal to", "different from", "greater then", "less then", "greater or equal to",
        "less or equal to"] := by
  rw [Vocabulary.isRelational, isSome_lookup_iff]
  simp only [Vocabulary.comparisons, List.map_cons, List.map_nil, List.mem_cons, List.not_mem_nil,
    or_false]
  grind

/-- A token of a shape that no relational phrase has is no such phrase. -/
theorem not_isRelational_of {p : String → Bool}
    (hp : ∀ q ∈ Vocabulary.comparisons, p q.1 = false) {t : String} (h : p t = true) :
    Vocabulary.isRelational t = false := by
  rw [Bool.eq_false_iff]
  intro hrelational
  obtain ⟨op, hop⟩ := Option.isSome_iff_exists.1 hrelational
  rw [hp _ (mem_of_lookup hop)] at h
  cases h

theorem isBoolean_iff {t : String} : Vocabulary.isBoolean t = true ↔ t = "true" ∨ t = "false" := by
  simp [Vocabulary.isBoolean]

/-! ## The one relational phrase -/

section

variable {left right : List String} {op : String}

/-- Tokens are parted at their first relational phrase, if no other follows. -/
theorem relation_append (hleft : ∀ t ∈ left, Vocabulary.isRelational t = false)
    (hop : Vocabulary.isRelational op = true) :
    relation (left ++ op :: right) =
      if right.countP Vocabulary.isRelational = 0 then .ok ⟨left, op, right⟩
      else .error (.manyRelations op (right.countP Vocabulary.isRelational + 1)) := by
  have hfirst : (left ++ op :: right).findIdx? Vocabulary.isRelational = some left.length := by
    rw [List.findIdx?_append, List.findIdx?_eq_none_iff.2 hleft, List.findIdx?_cons, if_pos hop]
    simp
  have hzero : left.countP Vocabulary.isRelational = 0 :=
    List.countP_eq_zero.2 fun t ht => by simp [hleft t ht]
  have hcount : (left ++ op :: right).countP Vocabulary.isRelational =
      right.countP Vocabulary.isRelational + 1 := by
    rw [List.countP_append, hzero, List.countP_cons_of_pos hop, Nat.zero_add]
  have hop' : (left ++ op :: right).getD left.length "" = op := by simp
  have hright : (left ++ op :: right).drop (left.length + 1) = right := by simp
  unfold relation
  rw [hfirst]
  dsimp only
  rw [hcount, hop', List.take_left, hright]
  by_cases hno : right.countP Vocabulary.isRelational = 0
  · rw [hno, if_pos rfl, if_neg (by decide)]
  · rw [if_neg hno, if_pos (by omega)]

theorem relation_iff {tokens : List String} {r : Relation} :
    relation tokens = .ok r ↔
      tokens = r.left ++ r.operator :: r.right ∧ Vocabulary.isRelational r.operator = true ∧
        (∀ t ∈ r.left, Vocabulary.isRelational t = false) ∧
        ∀ t ∈ r.right, Vocabulary.isRelational t = false := by
  constructor
  · intro h
    cases hfind : tokens.find? Vocabulary.isRelational with
    | none =>
      have hno : tokens.findIdx? Vocabulary.isRelational = none :=
        List.findIdx?_eq_none_iff.2 fun t ht => by simpa using List.find?_eq_none.1 hfind t ht
      rw [relation, hno] at h
      cases h
    | some op =>
      obtain ⟨hop, left, right, rfl, hleft⟩ := List.find?_eq_some_iff_append.1 hfind
      have hplain : ∀ t ∈ left, Vocabulary.isRelational t = false := by simpa using hleft
      rw [relation_append hplain hop] at h
      split at h
      · rename_i hcount
        cases h
        exact ⟨rfl, hop, hplain, by simpa using List.countP_eq_zero.1 hcount⟩
      · cases h
  · rintro ⟨htokens, hop, hleft, hright⟩
    have hcount : r.right.countP Vocabulary.isRelational = 0 :=
      List.countP_eq_zero.2 fun t ht => by simp [hright t ht]
    rw [htokens, relation_append hleft hop, if_pos hcount]

end

/-! ## Operands -/

theorem variableOf_iff {vars : Variables} {expected : ValueType} {x : String} :
    variableOf vars expected x = .ok () ↔ vars.lookup x = some expected := by
  unfold variableOf
  cases vars.lookup x with
  | none => simp
  | some type =>
    by_cases h : type = expected
    · simp [h]
    · simp [h]

section

variable {vars : Variables} (hnames : ∀ p ∈ vars, classify p.1 = .identifier)

include hnames

variable {type : ValueType} {t : String} {ts : List String}

theorem identified_of_lookup {x : String} (h : vars.lookup x = some type) :
    Identified x ∧ classify x = .identifier := by
  have hx := hnames _ (mem_of_lookup h)
  exact ⟨identified_of_classify hx, hx⟩

theorem booleanOperand_iff : booleanOperand vars t = .ok () ↔ IsBoolean vars t := by
  unfold booleanOperand IsBoolean
  rw [← or_assoc, ← isBoolean_iff]
  by_cases hb : Vocabulary.isBoolean t = true
  · simp [hb]
  · rw [if_neg hb, or_iff_right hb]
    by_cases hx : Literal.isIdentifier t = true
    · rw [if_pos hx, variableOf_iff]
    · rw [if_neg hx]
      refine iff_of_false (by simp) fun h => hx (identified_of_lookup hnames h).1.isIdentifier

theorem numericOperand_iff : numericOperand vars t = .ok () ↔ IsNumeric vars t := by
  unfold numericOperand IsNumeric
  by_cases hop : Vocabulary.isArithmetic t = true
  · have hno : ¬ Literal.Numeral t := fun hn => by
      have hwords : ∀ w ∈ ["add", "sub", "mul", "div"], Literal.isNumber w = false := by decide
      rw [← Literal.isNumber_iff, hwords t (isArithmetic_iff.1 hop)] at hn
      cases hn
    rw [if_pos hop, ← isArithmetic_iff]
    simp [hop, hno]
  · rw [if_neg hop, ← isArithmetic_iff, ← Literal.isNumber_iff]
    by_cases hn : Literal.isNumber t = true
    · simp [hn]
    · rw [if_neg hn, or_iff_right hn, and_iff_right hop]
      by_cases hx : Literal.isIdentifier t = true
      · rw [if_pos hx]
        cases vars.lookup t with
        | none => simp
        | some type => cases type <;> simp [ValueType.isNumeric]
      · rw [if_neg hx]
        refine iff_of_false (by simp) ?_
        rintro (h | h)
        · exact hx (identified_of_lookup hnames h).1.isIdentifier
        · exact hx (identified_of_lookup hnames h).1.isIdentifier

/-! ## The three checks -/

theorem checkBoolean_iff :
    checkBoolean vars ts = .ok () ↔
      (∃ a, ts = [a] ∧ IsBoolean vars a) ∨
      ∃ a op b, ts = [a, op, b] ∧ IsBoolean vars a ∧ op ∈ ["equal to", "different from"] ∧
        IsBoolean vars b := by
  rcases ts with - | ⟨a, - | ⟨op, - | ⟨b, - | ⟨c, ts⟩⟩⟩⟩
  · simp [checkBoolean]
  · simp [checkBoolean, booleanOperand_iff hnames]
  · simp [checkBoolean]
  · have hthree : checkBoolean vars [a, op, b] = .ok () ↔
        IsBoolean vars a ∧ op ∈ ["equal to", "different from"] ∧ IsBoolean vars b := by
      rw [checkBoolean, except_bind_ok, ← isEquality_iff]
      by_cases hop : Vocabulary.isEquality op = true
      · simp [hop, booleanOperand_iff hnames]
      · simp [hop]
    rw [hthree]
    constructor
    · exact fun h => .inr ⟨a, op, b, rfl, h⟩
    · rintro (⟨_, hts, -⟩ | ⟨_, _, _, hts, h⟩)
      · cases hts
      · cases hts
        exact h
  · simp [checkBoolean]

theorem operands_iff : operands vars ts = .ok () ↔ ts = [] ∨ Alternates vars ts := by
  fun_induction operands vars ts with
  | case1 => simp
  | case2 a =>
    rw [numericOperand_iff hnames]
    constructor
    · exact fun ha => .inr (.last ha)
    · rintro (h | h)
      · cases h
      · cases h with
        | last ha => exact ha
  | case3 a op rest ih =>
    rw [except_bind_ok]
    simp only [numericOperand_iff hnames]
    constructor
    · rintro ⟨_, ha, h⟩
      split at h
      · cases h
      · rename_i hop
        split at h
        · cases h
        · rename_i hrest
          have hmore := (ih.1 h).resolve_left (by simpa using hrest)
          exact .inr (.more ha (isArithmetic_iff.1 (by simpa using hop)) hmore)
    · rintro (h | h)
      · cases h
      · cases h with
        | more ha hop hmore =>
          refine ⟨(), ha, ?_⟩
          have hne : rest.isEmpty = false := by cases hmore <;> rfl
          rw [isArithmetic_iff.2 hop, hne]
          exact ih.2 (.inr hmore)

theorem arithmeticSide_iff {side : Side} :
    arithmeticSide vars side ts = .ok () ↔ Alternates vars ts := by
  unfold arithmeticSide
  cases ts with
  | nil => exact iff_of_false (by simp) (by rintro ⟨⟩)
  | cons t ts => rw [List.isEmpty_cons, if_neg (by decide), operands_iff hnames]; simp

theorem IsNumeric.not_relational (h : IsNumeric vars t) : Vocabulary.isRelational t = false := by
  rcases h with hn | ⟨-, h | h⟩
  · exact not_isRelational_of (by decide) (Literal.isNumber_iff.2 hn)
  · exact (identified_of_lookup hnames h).1.isRelational
  · exact (identified_of_lookup hnames h).1.isRelational

theorem Alternates.not_relational (h : Alternates vars ts) :
    ∀ t ∈ ts, Vocabulary.isRelational t = false := by
  have hwords : ∀ w ∈ ["add", "sub", "mul", "div"], Vocabulary.isRelational w = false := by decide
  induction h with
  | last ht => exact List.forall_mem_singleton.2 (ht.not_relational hnames)
  | more ht hop _ ih =>
    exact List.forall_mem_cons.2 ⟨ht.not_relational hnames,
      List.forall_mem_cons.2 ⟨hwords _ hop, ih⟩⟩

theorem checkNumeric_iff :
    checkNumeric vars ts = .ok () ↔
      ∃ left op right, ts = left ++ op :: right ∧ Alternates vars left ∧
        Vocabulary.isRelational op = true ∧ Alternates vars right := by
  unfold checkNumeric
  rw [except_bind_ok]
  constructor
  · rintro ⟨⟨left, op, right⟩, hrelation, h⟩
    obtain ⟨_, hleft, hright⟩ := except_bind_ok.1 h
    obtain ⟨hts, hop, -, -⟩ := relation_iff.1 hrelation
    exact ⟨left, op, right, hts, (arithmeticSide_iff hnames).1 hleft, hop,
      (arithmeticSide_iff hnames).1 hright⟩
  · rintro ⟨left, op, right, hts, hleft, hop, hright⟩
    refine ⟨⟨left, op, right⟩, relation_iff.2 ⟨hts, hop, hleft.not_relational hnames,
      hright.not_relational hnames⟩, except_bind_ok.2 ⟨(), ?_, ?_⟩⟩
    · exact (arithmeticSide_iff hnames).2 hleft
    · exact (arithmeticSide_iff hnames).2 hright

theorem IsText.not_relational (h : IsText vars t) : Vocabulary.isRelational t = false := by
  rcases h with h | hs
  · exact (identified_of_lookup hnames h).1.isRelational
  · exact not_isRelational_of (by decide) hs

theorem checkText_iff :
    checkText vars ts = .ok () ↔
      ∃ a op b, ts = [a, op, b] ∧ vars.lookup a = some .text ∧
        op ∈ ["equal to", "different from"] ∧ IsText vars b := by
  unfold checkText
  rw [except_bind_ok]
  constructor
  · rintro ⟨⟨left, op, right⟩, hrelation, h⟩
    obtain ⟨hts, -, -, -⟩ := relation_iff.1 hrelation
    dsimp only at hts h
    split at h
    · cases h
    · rename_i hop
      have hequality : op ∈ ["equal to", "different from"] := isEquality_iff.1 (by simpa using hop)
      split at h
      · rename_i a
        split at h
        · obtain ⟨_, ha, hright⟩ := except_bind_ok.1 h
          have htext := variableOf_iff.1 ha
          split at hright
          · rename_i b
            refine ⟨a, op, b, hts, htext, hequality, ?_⟩
            split at hright
            · exact .inr ‹_›
            · split at hright
              · exact .inl (variableOf_iff.1 hright)
              · cases hright
          · cases hright
        · cases h
      · cases h
  · rintro ⟨a, op, b, rfl, ha, hop, hb⟩
    have hrelation : relation [a, op, b] = .ok ⟨[a], op, [b]⟩ := by
      have hrelational : Vocabulary.isRelational op = true := by
        simp only [List.mem_cons, List.not_mem_nil, or_false] at hop
        rcases hop with rfl | rfl <;> rfl
      exact relation_iff.2 ⟨rfl, hrelational,
        List.forall_mem_singleton.2 (IsText.not_relational hnames (.inl ha)),
        List.forall_mem_singleton.2 (hb.not_relational hnames)⟩
    refine ⟨_, hrelation, ?_⟩
    dsimp only
    rw [isEquality_iff.2 hop, (identified_of_lookup hnames ha).1.isIdentifier]
    refine except_bind_ok.2 ⟨(), variableOf_iff.2 ha, ?_⟩
    rcases hb with hb | hb
    · obtain ⟨hid, -⟩ := identified_of_lookup hnames hb
      rw [hid.isString, hid.isIdentifier]
      exact variableOf_iff.2 hb
    · rw [hb]
      rfl

/-! ## The first operand -/

theorem operandType_variable {x : String} (h : vars.lookup x = some type) :
    operandType vars x = .ok type := by
  obtain ⟨hid, hclass⟩ := identified_of_lookup hnames h
  unfold operandType
  rw [hid.isBoolean, hid.isNumber, hid.isString, hid.isIdentifier, hclass, h]
  rfl

theorem operandType_boolean (h : IsBoolean vars t) : operandType vars t = .ok .boolean := by
  rcases h with rfl | rfl | h
  · rfl
  · rfl
  · exact operandType_variable hnames h

theorem operandType_numeric (h : IsNumeric vars t) :
    operandType vars t = .ok .integer ∨ operandType vars t = .ok .decimal := by
  rcases h with hn | ⟨-, h | h⟩
  · have hnumber := Literal.isNumber_iff.2 hn
    have hboolean : Vocabulary.isBoolean t = false := by
      rw [Bool.eq_false_iff]
      intro hb
      rcases isBoolean_iff.1 hb with rfl | rfl <;> cases hnumber
    unfold operandType
    rw [hboolean, hnumber]
    simp only [Bool.false_eq_true, if_false, if_true, Literal.numberType]
    split
    · exact .inr rfl
    · exact .inl rfl
  · exact .inl (operandType_variable hnames h)
  · exact .inr (operandType_variable hnames h)

/-- The type of its first token leads a derived condition to a check that accepts it. -/
theorem Derives.checked (h : Derives vars ts) :
    ∃ first rest type, ts = first :: rest ∧ operandType vars first = .ok type ∧
      checkTokens vars type ts = .ok () := by
  cases h with
  | @truth a ha =>
    exact ⟨a, [], .boolean, rfl, operandType_boolean hnames ha,
      (checkBoolean_iff hnames).2 (.inl ⟨a, rfl, ha⟩)⟩
  | @booleans a op b ha hop hb =>
    exact ⟨a, [op, b], .boolean, rfl, operandType_boolean hnames ha,
      (checkBoolean_iff hnames).2 (.inr ⟨a, op, b, rfl, ha, hop, hb⟩)⟩
  | @numbers left right op hleft hop hright =>
    have hchecked : checkNumeric vars (left ++ op :: right) = .ok () :=
      (checkNumeric_iff hnames).2 ⟨left, op, right, rfl, hleft, isRelational_iff.2 hop, hright⟩
    obtain ⟨first, rest, hfirst, ht⟩ :
        ∃ first rest, left = first :: rest ∧ IsNumeric vars first := by
      cases hleft with
      | last ht => exact ⟨_, _, rfl, ht⟩
      | more ht _ _ => exact ⟨_, _, rfl, ht⟩
    have hts : left ++ op :: right = first :: (rest ++ op :: right) := by
      rw [hfirst, List.cons_append]
    rcases operandType_numeric hnames ht with htype | htype
    · exact ⟨first, _, .integer, hts, htype, hchecked⟩
    · exact ⟨first, _, .decimal, hts, htype, hchecked⟩
  | @texts a op b ha hop hb =>
    exact ⟨a, [op, b], .text, rfl, operandType_variable hnames ha,
      (checkText_iff hnames).2 ⟨a, op, b, rfl, ha, hop, hb⟩⟩

/-- Whatever one of the checks accepts is derived. -/
theorem derives_of_checkTokens (h : checkTokens vars type ts = .ok ()) : Derives vars ts := by
  have hnumeric : checkNumeric vars ts = .ok () → Derives vars ts := by
    intro h
    obtain ⟨left, op, right, rfl, hleft, hop, hright⟩ := (checkNumeric_iff hnames).1 h
    exact .numbers hleft (isRelational_iff.1 hop) hright
  cases type with
  | boolean =>
    rcases (checkBoolean_iff hnames).1 h with ⟨a, rfl, ha⟩ | ⟨a, op, b, rfl, ha, hop, hb⟩
    · exact .truth ha
    · exact .booleans ha hop hb
  | integer => exact hnumeric h
  | decimal => exact hnumeric h
  | text =>
    obtain ⟨a, op, b, rfl, ha, hop, hb⟩ := (checkText_iff hnames).1 h
    exact .texts ha hop hb
  | _ => cases h

theorem derives_of_check {cond : String} (h : check vars cond = .ok ()) :
    Derives vars (tokenize cond) := by
  unfold check at h
  split at h
  · cases h
  · obtain ⟨type, -, hchecked⟩ := except_bind_ok.1 h
    rename_i htokens
    rw [htokens]
    exact derives_of_checkTokens hnames hchecked

end

/-- Where all variables have names that are identifiers, a text is a condition exactly if its tokens
are derived by the grammar. -/
theorem accepted_iff_derives {vars : Variables} (hnames : ∀ p ∈ vars, classify p.1 = .identifier)
    (cond : String) : check vars cond = .ok () ↔ Derives vars (tokenize cond) := by
  constructor
  · exact derives_of_check hnames
  · intro h
    unfold check
    obtain ⟨first, rest, type, htokens, htype, hchecked⟩ := h.checked hnames
    rw [htokens] at hchecked ⊢
    exact except_bind_ok.2 ⟨type, htype, hchecked⟩

/-- Both sides hold an operator, and the phrase is spelled with a tab. -/
theorem accepted_iff_derives_sides :
    let vars : Variables := [("a", .integer), ("add", .integer), ("d", .decimal)]
    let cond := "a add -1 less or\tequal to d mul 2.5"
    (∀ p ∈ vars, classify p.1 = .identifier) ∧ check vars cond = .ok () ∧
      Derives vars ["a", "add", "-1", "less or equal to", "d", "mul", "2.5"] := by
  intro vars cond
  have hnames : ∀ p ∈ vars, classify p.1 = .identifier := by decide +kernel
  have htokens : tokenize cond = ["a", "add", "-1", "less or equal to", "d", "mul", "2.5"] := by
    decide +kernel
  have hok : check vars cond = .ok () := except_toOption_eq_some.1 (by decide +kernel)
  exact ⟨hnames, hok, htokens ▸ (accepted_iff_derives hnames cond).1 hok⟩

end Courtesy.Condition
