import Courtesy.Proofs.Acceptor
import Mathlib.Computability.ContextFreeGrammar
import Mathlib.Data.List.Chain

/-!
# The acceptor and a context-free grammar

The grammar of expressions, written as rewriting rules: a body is an optional sign and atoms with
operators between them, an atom is an operand or a body in parentheses, and at the top a truth value
may stand in place of the first atom. The rules do not tell strings from other atoms. What the
acceptor asks of strings is a condition on neighbours: an operator right behind a string is `plus`
(`PlusBehindStrings`).

* `Formed.derives`: what the acceptor's parts form can be derived.
* `Covered.of_derives`: each nonterminal in a form that derives a word covers a piece of the word,
  and the piece means what the nonterminal says (`Nonterminal.Means`).
* `accept_ok_iff_derives`: the acceptor accepts the words of the grammar that meet the condition.
-/

namespace Courtesy.Expression

inductive Nonterminal where
  | top
  | body
  /-- Further atoms, each behind an operator. -/
  | tail
  | atom
  | operator
  deriving DecidableEq, Repr

/-- The rules of the grammar. -/
def rules : List (ContextFreeRule Role Nonterminal) :=
  [⟨.top, [.nonterminal .body]⟩,
   ⟨.top, [.terminal .boolean, .nonterminal .tail]⟩,
   ⟨.body, [.nonterminal .atom, .nonterminal .tail]⟩,
   ⟨.body, [.terminal .plus, .nonterminal .atom, .nonterminal .tail]⟩,
   ⟨.body, [.terminal .minus, .nonterminal .atom, .nonterminal .tail]⟩,
   ⟨.tail, []⟩,
   ⟨.tail, [.nonterminal .operator, .nonterminal .atom, .nonterminal .tail]⟩,
   ⟨.atom, [.terminal .number]⟩,
   ⟨.atom, [.terminal .var]⟩,
   ⟨.atom, [.terminal .string]⟩,
   ⟨.atom, [.terminal .opening, .nonterminal .body, .terminal .closing]⟩,
   ⟨.operator, [.terminal .plus]⟩,
   ⟨.operator, [.terminal .minus]⟩,
   ⟨.operator, [.terminal .times]⟩,
   ⟨.operator, [.terminal .over]⟩]

/-- The grammar of expressions. -/
def grammar : ContextFreeGrammar Role where
  NT := Nonterminal
  initial := .top
  rules := rules.toFinset

/-- An operator right behind a string is `plus`. -/
def PlusBehindStrings (roles : List Role) : Prop :=
  roles.IsChain fun role next => role = .string → next.IsOperator → next = .plus

/-! ## From parts to derivations -/

/-- A sequence of symbols, some of which are still to be rewritten. -/
abbrev Form := List (Symbol Role Nonterminal)

/-- A word as a form with nothing left to rewrite. -/
def word (roles : List Role) : Form := roles.map .terminal

theorem word_append (u v : List Role) : word (u ++ v) = word u ++ word v := List.map_append

variable {u v : Form}

theorem derives_append {u' v' : Form} (hu : grammar.Derives u u') (hv : grammar.Derives v v') :
    grammar.Derives (u ++ v) (u' ++ v') :=
  (hu.append_right v).trans (hv.append_left u')

variable {roles : List Role}

theorem derives_of_rule (n : Nonterminal) (form : Form) (hr : ⟨n, form⟩ ∈ rules)
    (h : grammar.Derives form (word roles)) : grammar.Derives [.nonterminal n] (word roles) := by
  have hmem : (⟨n, form⟩ : ContextFreeRule Role Nonterminal) ∈ rules.toFinset :=
    List.mem_toFinset.2 hr
  have hproduces : grammar.Produces [.nonterminal n] form := ⟨_, hmem, .input_output⟩
  exact hproduces.trans_derives h

/-- The nonterminal of a part of an accepted sequence. -/
def Part.nonterminal : Part → Nonterminal
  | .atom _ => .atom
  | .rest _ => .tail
  | .chain => .body
  | .whole => .top

theorem derives_operator {op : Role} (hop : op.IsOperator) :
    grammar.Derives [.nonterminal .operator] (word [op]) := by
  rcases hop with rfl | rfl | rfl | rfl <;> exact derives_of_rule _ _ (by decide) (.refl _)

theorem Formed.derives {part : Part} (h : Formed part roles) :
    grammar.Derives [.nonterminal part.nonterminal] (word roles) := by
  induction h with
  | number => exact derives_of_rule .atom _ (by decide) (.refl _)
  | var => exact derives_of_rule .atom _ (by decide) (.refl _)
  | string => exact derives_of_rule .atom _ (by decide) (.refl _)
  | @group c _ ih =>
    refine derives_of_rule .atom [.terminal .opening, .nonterminal .body, .terminal .closing]
      (by decide) ?_
    rw [← List.singleton_append (x := Role.opening), word_append, word_append]
    exact derives_append (.refl [_]) (derives_append ih (.refl _))
  | done => exact derives_of_rule .tail [] (by decide) (.refl _)
  | @more s t op a r hop _ _ _ iha ihr =>
    refine derives_of_rule .tail [.nonterminal .operator, .nonterminal .atom, .nonterminal .tail]
      (by decide) ?_
    rw [← List.singleton_append (x := op), word_append, word_append]
    exact derives_append (derives_operator hop) (derives_append iha ihr)
  | plain _ _ iha ihr =>
    refine derives_of_rule .body [.nonterminal .atom, .nonterminal .tail] (by decide) ?_
    rw [word_append]
    exact derives_append iha ihr
  | @signed s sign a r hsign _ _ iha ihr =>
    refine derives_of_rule .body [.terminal sign, .nonterminal .atom, .nonterminal .tail] ?_ ?_
    · rcases hsign with rfl | rfl <;> decide
    · rw [← List.singleton_append (x := sign), word_append, word_append]
      exact derives_append (.refl [_]) (derives_append iha ihr)
  | value _ ih => exact derives_of_rule .top [.nonterminal .body] (by decide) ih
  | @truth r _ ih =>
    refine derives_of_rule .top [.terminal .boolean, .nonterminal .tail] (by decide) ?_
    rw [← List.singleton_append (x := Role.boolean), word_append]
    exact derives_append (.refl [_]) ih

/-! ## Strings in what is read -/

theorem Mode.next_string {mode mode' : Mode} (h : mode.next .string = some mode') :
    mode' = .string := by
  cases mode <;> cases h <;> rfl

/-- The acceptor lets no other operator than `plus` stand behind a string. A mode remembers whether
a string is in front. -/
theorem plusBehindStrings_of_reads {mode : Mode} {depth : Nat} (h : reads mode depth roles = true) :
    PlusBehindStrings roles ∧ (mode = .string → PlusBehindStrings (.string :: roles)) := by
  induction roles generalizing mode depth with
  | nil => exact ⟨.nil, fun _ => .singleton _⟩
  | cons role roles ih =>
    rw [reads] at h
    cases hnext : mode.next role with
    | none =>
      rw [hnext] at h
      cases h
    | some mode' =>
      obtain ⟨depth', hread⟩ : ∃ depth', reads mode' depth' roles = true := by
        rw [hnext] at h
        cases role with
        | closing => exact ⟨_, (Bool.and_eq_true_iff.1 h).2⟩
        | _ => exact ⟨_, h⟩
      obtain ⟨hroles, hstring⟩ := ih hread
      have hbehind : PlusBehindStrings (role :: roles) := by
        by_cases hrole : role = .string
        · subst hrole
          exact hstring (Mode.next_string hnext)
        · exact List.isChain_cons.2 ⟨fun _ _ h => absurd h hrole, hroles⟩
      refine ⟨hbehind, ?_⟩
      rintro rfl
      refine List.isChain_cons_cons.2 ⟨fun _ hop => ?_, hbehind⟩
      rcases hop with rfl | rfl | rfl | rfl
      · rfl
      all_goals cases hnext

/-! ## From derivations to parts -/

/-- What a nonterminal says about the piece of a word that it covers, given that the piece meets the
condition on strings. The atom in front of a tail decides which operator may follow. -/
def Nonterminal.Means : Nonterminal → List Role → Prop
  | .top, roles => PlusBehindStrings roles → Formed .whole roles
  | .body, roles => PlusBehindStrings roles → Formed .chain roles
  | .tail, roles => PlusBehindStrings roles → ∀ s : Bool,
      (s = true → PlusBehindStrings (.string :: roles)) → Formed (.rest s) roles
  | .atom, roles => PlusBehindStrings roles → ∃ s : Bool, Formed (.atom s) roles ∧
      (s = true → roles = [.string])
  | .operator, roles => ∃ op : Role, op.IsOperator ∧ roles = [op]

/-- A word falls into the pieces that the symbols of a form cover. -/
def Covered : Form → List Role → Prop
  | [], roles => roles = []
  | .terminal role :: form, roles => ∃ rest, roles = role :: rest ∧ Covered form rest
  | .nonterminal n :: form, roles => ∃ piece rest, roles = piece ++ rest ∧ n.Means piece ∧
      Covered form rest

theorem covered_word (roles : List Role) : Covered (word roles) roles := by
  induction roles with
  | nil => rfl
  | cons role roles ih => exact ⟨roles, rfl, ih⟩

theorem Covered.append (h : Covered (u ++ v) roles) :
    ∃ front back, roles = front ++ back ∧ Covered u front ∧ Covered v back := by
  induction u generalizing roles with
  | nil => exact ⟨[], roles, rfl, rfl, h⟩
  | cons x u ih =>
    cases x with
    | terminal role =>
      obtain ⟨rest, rfl, hrest⟩ := h
      obtain ⟨front, back, rfl, hu, hv⟩ := ih hrest
      exact ⟨role :: front, back, rfl, ⟨front, rfl, hu⟩, hv⟩
    | nonterminal n =>
      obtain ⟨piece, rest, rfl, hn, hrest⟩ := h
      obtain ⟨front, back, rfl, hu, hv⟩ := ih hrest
      exact ⟨piece ++ front, back, (List.append_assoc ..).symm, ⟨piece, front, rfl, hn, hu⟩, hv⟩

/-- An atom and the tail behind it, as every longer rule has them. -/
theorem means_atom_tail {a r : List Role} (ha : Nonterminal.atom.Means a)
    (hr : Nonterminal.tail.Means r) (h : PlusBehindStrings (a ++ r)) :
    ∃ s : Bool, Formed (.atom s) a ∧ Formed (.rest s) r := by
  obtain ⟨s, hatom, hstring⟩ := ha h.left_of_append
  refine ⟨s, hatom, hr h.right_of_append s fun hs => ?_⟩
  rw [hstring hs] at h
  exact h

/-- Each rule keeps to what its nonterminal says. -/
theorem means_of_rule {r : ContextFreeRule Role Nonterminal} (hr : r ∈ rules)
    (h : Covered r.output roles) : r.input.Means roles := by
  simp only [rules, List.mem_cons, List.not_mem_nil, or_false] at hr
  rcases hr with rfl | rfl | rfl | rfl | rfl | rfl | rfl | rfl | rfl | rfl | rfl | rfl | rfl | rfl |
    rfl
  · obtain ⟨body, _, rfl, hbody, rfl⟩ := h
    rw [List.append_nil]
    exact fun hstrings => .value (hbody hstrings)
  · obtain ⟨_, rfl, tail, _, rfl, htail, rfl⟩ := h
    rw [List.append_nil]
    exact fun hstrings => .truth (htail hstrings.tail false (by simp))
  · obtain ⟨atom, _, rfl, hatom, tail, _, rfl, htail, rfl⟩ := h
    rw [List.append_nil]
    intro hstrings
    obtain ⟨s, ha, hr⟩ := means_atom_tail hatom htail hstrings
    exact .plain ha hr
  · obtain ⟨_, rfl, atom, _, rfl, hatom, tail, _, rfl, htail, rfl⟩ := h
    rw [List.append_nil]
    intro hstrings
    obtain ⟨s, ha, hr⟩ := means_atom_tail hatom htail hstrings.tail
    exact .signed (.inl rfl) ha hr
  · obtain ⟨_, rfl, atom, _, rfl, hatom, tail, _, rfl, htail, rfl⟩ := h
    rw [List.append_nil]
    intro hstrings
    obtain ⟨s, ha, hr⟩ := means_atom_tail hatom htail hstrings.tail
    exact .signed (.inr rfl) ha hr
  · obtain rfl := h
    exact fun _ _ _ => .done
  · obtain ⟨_, _, rfl, ⟨op, hop, rfl⟩, atom, _, rfl, hatom, tail, _, rfl, htail, rfl⟩ := h
    rw [List.append_nil, List.singleton_append]
    intro hstrings s hs
    obtain ⟨t, ha, hr⟩ := means_atom_tail hatom htail hstrings.tail
    exact .more hop (fun h => (List.isChain_cons_cons.1 (hs h)).1 rfl hop) ha hr
  · obtain ⟨_, rfl, rfl⟩ := h
    exact fun _ => ⟨false, .number, by simp⟩
  · obtain ⟨_, rfl, rfl⟩ := h
    exact fun _ => ⟨false, .var, by simp⟩
  · obtain ⟨_, rfl, rfl⟩ := h
    exact fun _ => ⟨true, .string, fun _ => rfl⟩
  · obtain ⟨_, rfl, body, _, rfl, hbody, _, rfl, rfl⟩ := h
    exact fun hstrings => ⟨false, .group (hbody hstrings.tail.left_of_append), by simp⟩
  · obtain ⟨_, rfl, rfl⟩ := h
    exact ⟨.plus, .inl rfl, rfl⟩
  · obtain ⟨_, rfl, rfl⟩ := h
    exact ⟨.minus, .inr (.inl rfl), rfl⟩
  · obtain ⟨_, rfl, rfl⟩ := h
    exact ⟨.times, .inr (.inr (.inl rfl)), rfl⟩
  · obtain ⟨_, rfl, rfl⟩ := h
    exact ⟨.over, .inr (.inr (.inr rfl)), rfl⟩

theorem Covered.of_rewrites {r : ContextFreeRule Role Nonterminal} (hr : r ∈ rules)
    (hrewrites : r.Rewrites u v) (h : Covered v roles) : Covered u roles := by
  induction hrewrites generalizing roles with
  | head form =>
    obtain ⟨piece, rest, rfl, hpiece, hrest⟩ := h.append
    exact ⟨piece, rest, rfl, means_of_rule hr hpiece, hrest⟩
  | cons x _ ih =>
    cases x with
    | terminal role =>
      obtain ⟨rest, rfl, hrest⟩ := h
      exact ⟨rest, rfl, ih hrest⟩
    | nonterminal n =>
      obtain ⟨piece, rest, rfl, hn, hrest⟩ := h
      exact ⟨piece, rest, rfl, hn, ih hrest⟩

theorem Covered.of_derives (hderives : grammar.Derives u v) (h : Covered v roles) :
    Covered u roles := by
  induction hderives with
  | refl => exact h
  | tail _ hproduces ih =>
    obtain ⟨r, hr, hrewrites⟩ := hproduces
    exact ih (h.of_rewrites (List.mem_toFinset.1 hr) hrewrites)

/-- The words of the grammar that meet the condition on strings are formed as a whole. -/
theorem formed_of_derives (h : roles ∈ grammar.language) (hstrings : PlusBehindStrings roles) :
    Formed .whole roles := by
  obtain ⟨piece, rest, rfl, hpiece, rfl⟩ := (covered_word roles).of_derives h
  rw [List.append_nil] at hstrings ⊢
  exact hpiece hstrings

/-- The acceptor accepts exactly the words of a context-free grammar in which an operator right
behind a string is `plus`. -/
theorem accept_ok_iff_derives (items : List Item) :
    accept items = .ok () ↔
      items.map (·.role) ∈ grammar.language ∧ PlusBehindStrings (items.map (·.role)) := by
  constructor
  · intro h
    have hformed := (accept_ok_iff items).1 h
    exact ⟨hformed.derives, (plusBehindStrings_of_reads hformed.reading).1⟩
  · rintro ⟨hderives, hstrings⟩
    exact (accept_ok_iff items).2 (formed_of_derives hderives hstrings)

end Courtesy.Expression
