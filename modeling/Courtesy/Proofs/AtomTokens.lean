import Courtesy.Proofs.Expressions
import Courtesy.Proofs.Rescanning
import Mathlib.Data.List.TakeWhile

/-!
# The atoms of an expression are tokens

An expression is cut into atoms when it is checked and into lexemes when it is lowered, and the two
scanners have different rules: lexemes may be phrases of several words and end where a word ends.
Joined by single spaces, the atoms of an accepted expression are its lexemes
(`Accepted.tokenize_text`). Each atom that fits somewhere is a lexeme of its own (`HasRole.found`)
unless a phrase starts there, and a phrase starts with two names, which no accepted expression holds
side by side (`Accepted.names_apart`).
-/

namespace Courtesy

open Text

namespace Lexeme

/-- The first word at the head of a text starts with its first character. -/
theorem head_of_wordRun {c : Char} (hc : isPhraseSpace c = false) {cs w : List Char}
    {ws : List (List Char)} (h : wordRun (c :: cs) = w :: ws) : w.head? = some c := by
  obtain ⟨u, rest, hcs, hu, hrest⟩ := exists_word (c :: cs)
  cases u with
  | nil =>
    rw [List.nil_append] at hcs
    have hnil : wordRun (c :: cs) = [] := wordRun_eq_nil (hcs ▸ hrest) (by rintro d ⟨⟩; exact hc)
    rw [hnil] at h
    cases h
  | cons d u =>
    have hword : IsWord (d :: u) := ⟨by simp, hu⟩
    rw [hcs, wordRun_word hword hrest] at h
    obtain ⟨rfl, -⟩ := List.cons.inj h
    exact congrArg some (List.cons.inj hcs).1.symm

/-- A number that stands alone is read to its end. -/
theorem numberLength?_numeral {s : String} (h : Literal.Numeral s) :
    numberLength? s.toList = some s.toList.length := by
  obtain ⟨sign, whole, fraction, hs, hsign, ⟨hne, hdigits⟩, hfraction⟩ := h
  have hhead : ∀ d ∈ fraction.head?, d.isDigit = false := by
    rcases hfraction with rfl | ⟨digits, rfl, -⟩
    · rintro d ⟨⟩
    · rintro d ⟨⟩
      rfl
  have htail : ∀ n, numberTail n fraction = some (n + fraction.length) := by
    intro n
    rcases hfraction with rfl | ⟨digits, rfl, hne, hall⟩
    · rfl
    · have hcount : fractionCount ('.' :: digits) = digits.length := by
        rw [fractionCount, digitCount, List.takeWhile_eq_self_iff.2 hall]
      have hpos : digits.length ≠ 0 := fun h0 => hne (List.eq_nil_of_length_eq_zero h0)
      rw [numberTail, hcount, List.drop_succ_cons, List.drop_length, if_pos ⟨hpos, rfl⟩,
        List.length_cons]
  rw [hs]
  rcases hsign with rfl | rfl
  · rw [List.nil_append, numberLength?_digits hne hdigits hhead, htail, List.length_append]
  · -- behind the minus sign the digits are counted as if it were not there
    have hcount : digitCount (whole ++ fraction) = whole.length := by
      rw [digitCount, List.takeWhile_append_of_pos hdigits]
      cases fraction with
      | nil => simp
      | cons c fraction => simp [hhead c rfl]
    have hpos : whole.length ≠ 0 := fun h0 => hne (List.eq_nil_of_length_eq_zero h0)
    rw [numberLength?_eq]
    change (if digitCount (whole ++ fraction) = 0 then none
      else numberTail (1 + digitCount (whole ++ fraction))
        (('-' :: (whole ++ fraction)).drop (1 + digitCount (whole ++ fraction)))) = _
    rw [hcount, if_neg hpos, Nat.add_comm, List.drop_succ_cons, List.drop_left, htail]
    simp only [List.singleton_append, List.length_cons, List.length_append, Option.some.injEq]
    omega

end Lexeme

namespace Expression

open Lexeme

/-! ## Atoms as lexemes -/

/-- The characters of atoms that are no strings. -/
def IsSolid (c : Char) : Prop := isWordChar c = true ∨ c ∈ ['-', '.', '(', ')']

variable {c : Char} {t a : String} {role : Role} {ts : List String}

theorem IsSolid.isStop (h : IsSolid c) : isStop c = false := by
  rcases h with h | h
  · exact isStop_of_isWordChar h
  · simp only [List.mem_cons, List.not_mem_nil, or_false] at h
    rcases h with rfl | rfl | rfl | rfl <;> rfl

theorem IsSolid.isGap (h : IsSolid c) : isGap c = false := by
  rcases h with h | h
  · exact isGap_of_isWordChar h
  · simp only [List.mem_cons, List.not_mem_nil, or_false] at h
    rcases h with rfl | rfl | rfl | rfl <;> rfl

theorem ordinary_identifier {x : String} (h : Literal.isIdentifier x = true) :
    (∀ d ∈ x.toList, IsSolid d) ∧ ordinaryLength? x.toList = some x.toList.length := by
  obtain ⟨c, cs, hx, hc, hcs⟩ := Literal.chars_of_isIdentifier h
  rw [hx]
  refine ⟨List.forall_mem_cons.2 ⟨.inl (isWordChar_of_isWordStart hc),
    fun d hd => .inl (hcs d hd)⟩, ?_⟩
  rw [ordinaryLength?_word cs hc, List.takeWhile_eq_self_iff.2 hcs]
  rfl

theorem ordinary_number {n : String} (h : Literal.Numeral n) :
    (∀ d ∈ n.toList, IsSolid d) ∧ ordinaryLength? n.toList = some n.toList.length := by
  have hchars := chars_of_isNumber (Literal.isNumber_iff.2 h)
  refine ⟨fun d hd => ?_, ?_⟩
  · rcases hchars d hd with hdigit | rfl | rfl
    · exact .inl (isWordChar_of_isDigit hdigit)
    · exact .inr (by simp)
    · exact .inr (by simp)
  · have hlength := numberLength?_numeral h
    cases hn : n.toList with
    | nil =>
      rw [hn] at hlength
      cases hlength
    | cons c cs =>
      rw [hn] at hchars hlength
      rcases hchars c List.mem_cons_self with hdigit | rfl | rfl
      · rw [ordinaryLength?_digit cs hdigit, hlength]
        rfl
      · rw [ordinaryLength?_symbol cs (by decide), hlength]
        rfl
      · rw [ordinaryLength?_symbol cs (by decide), hlength]
        rfl

/-- An atom that fits somewhere and is no string is a lexeme if it stands alone. -/
theorem HasRole.ordinary (h : HasRole t role) (hs : role ≠ .string) :
    (∀ d ∈ t.toList, IsSolid d) ∧ ordinaryLength? t.toList = some t.toList.length := by
  cases h with
  | number hn => exact ordinary_number hn
  | string => exact absurd rfl hs
  | boolean ht =>
    simp only [Vocabulary.isBoolean, Bool.or_eq_true, beq_iff_eq] at ht
    rcases ht with rfl | rfl <;> exact ordinary_identifier (by decide)
  | name hx _ => exact ordinary_identifier hx
  | opening =>
    have hsolid : ∀ d ∈ ['('], IsSolid d := List.forall_mem_singleton.2 (.inr (by simp))
    exact ⟨hsolid, rfl⟩
  | closing =>
    have hsolid : ∀ d ∈ [')'], IsSolid d := List.forall_mem_singleton.2 (.inr (by simp))
    exact ⟨hsolid, rfl⟩
  | _ => exact ordinary_identifier (by decide)

/-- An atom that is a string holds no quote but the two at its ends. -/
theorem plain_of_isString {expr : String} (hmem : t ∈ cut expr) (h : Literal.isString t = true) :
    ∃ body, Plain body ∧ t.toList = '"' :: (body ++ ['"']) := by
  unfold Literal.isString at h
  split at h
  · rename_i cs hcs
    rcases (atoms_cut _).piece _ (mem_cut hmem) with hwhole | ⟨r, hr, hopen⟩
    · rw [hcs] at hwhole
      generalize htext : '"' :: cs = text at hwhole
      cases hwhole with
      | plain hp =>
        rw [← htext] at hp
        exact absurd rfl (plain_cons.1 hp).1
      | @literal body hb => exact ⟨body, hb, hcs.trans htext⟩
    · -- a quote that is left open is not closed at the end either
      rw [hcs] at hopen
      obtain ⟨-, rfl⟩ := List.cons.inj hopen
      have hlast := beq_iff_eq.1 (Bool.and_eq_true_iff.1 h).1
      exact absurd (List.mem_of_getLast? hlast) hr
  · cases h

/-- An atom as the scanner of lexemes finds it in front of a space or at the end. -/
structure Found (t : String) (rest : List Char) : Prop where
  head : ∃ c cs, t.toList = c :: cs ∧ isGap c = false
  verbatim : normalise t.toList = t
  length : anyPhraseLength? (t.toList ++ rest) = none →
    lexemeLength? (t.toList ++ rest) = some t.toList.length

theorem HasRole.found {expr : String} (h : HasRole t role) (hmem : t ∈ cut expr)
    {rest : List Char} (hrest : Stops rest) : Found t rest := by
  by_cases hs : role = .string
  · subst hs
    cases h with
    | string ht =>
      obtain ⟨body, hb, htext⟩ := plain_of_isString hmem ht
      refine ⟨⟨'"', _, htext, rfl⟩, ?_, fun _ => ?_⟩
      · rw [← String.toList_inj, htext, normalise_quote]
      · have hliteral := lexemeLength?_literal hb rest
        rw [htext]
        simpa using hliteral
  · obtain ⟨hsolid, hlength⟩ := h.ordinary hs
    have hverbatim : normalise t.toList = t := by
      rw [normalise_solid fun d hd => (hsolid d hd).isStop, String.ofList_toList]
    cases htext : t.toList with
    | nil =>
      rw [htext] at hlength
      cases hlength
    | cons c cs =>
      rw [htext] at hsolid hlength
      have hc := hsolid c List.mem_cons_self
      refine ⟨⟨c, cs, htext, hc.isGap⟩, hverbatim, fun hno => ?_⟩
      rw [htext] at hno ⊢
      rw [lexemeLength?_eq, hno, ordinaryLength?_append hc.isStop hrest, hlength]
      rfl

/-! ## Phrases -/

/-- A word in an atom starts a phrase only if it is the whole atom. -/
theorem HasRole.isIdentifier (h : HasRole t role) (hc : isWordStart c = true)
    (hhead : t.toList.head? = some c) : Literal.isIdentifier t = true := by
  have hmem : c ∈ t.toList := List.mem_of_head? hhead
  cases h with
  | number hn =>
    rcases chars_of_isNumber (Literal.isNumber_iff.2 hn) c hmem with hdigit | rfl | rfl
    · rw [isDigit_of_isWordStart hc] at hdigit
      cases hdigit
    · cases hc
    · cases hc
  | string ht =>
    unfold Literal.isString at ht
    split at ht
    · rename_i cs hcs
      rw [hcs] at hhead
      cases hhead
      cases hc
    · cases ht
  | boolean ht =>
    simp only [Vocabulary.isBoolean, Bool.or_eq_true, beq_iff_eq] at ht
    rcases ht with rfl | rfl <;> decide
  | name hx _ => exact hx
  | opening =>
    cases hhead
    cases hc
  | closing =>
    cases hhead
    cases hc
  | _ => decide

theorem HasRole.named {x : String} (h : HasRole x .var) : Literal.isIdentifier x = true := by
  cases h with
  | name hx _ => exact hx

/-- The words of phrases are names. -/
theorem phrases_named {ws : List (List Char)} (hws : ws ∈ phrases) {w : List Char} (hw : w ∈ ws) :
    HasRole (String.ofList w) .var := by
  have hall : ∀ p ∈ Vocabulary.phrases, ∀ s ∈ p, role? s = some .var := by decide +kernel
  obtain ⟨p, hp, rfl⟩ := List.mem_map.1 hws
  obtain ⟨s, hs, rfl⟩ := List.mem_map.1 hw
  rw [String.ofList_toList]
  exact hasRole_of_role? (hall p hp s hs)

/-- The first word at the head of joined atoms is the first atom, if it is a name. -/
theorem wordRun_atoms (ha : HasRole a role) (hhead : ∃ c cs, a.toList = c :: cs ∧ isGap c = false)
    {w : List Char} {ws : List (List Char)} (hw : HasRole (String.ofList w) .var)
    (h : wordRun (a.toList ++ joinedTail ts) = w :: ws) :
    a = String.ofList w ∧ wordRun (spaced ts).toList = ws := by
  obtain ⟨c, cs, hcs, hgap⟩ := hhead
  have hspace : isPhraseSpace c = false := (Bool.or_eq_false_iff.1 hgap).1
  have hfirst : w.head? = some c := head_of_wordRun hspace (by rw [← h, hcs, List.cons_append])
  have hstart : isWordStart c = true := by
    obtain ⟨d, ds, hd, hstart, -⟩ := Literal.chars_of_isIdentifier hw.named
    rw [String.toList_ofList] at hd
    rw [hd] at hfirst
    cases hfirst
    exact hstart
  have hid := ha.isIdentifier hstart (by rw [hcs]; rfl)
  have hword : IsWord a.toList := ⟨by simp [hcs], Literal.isWordChar_of_isIdentifier hid⟩
  have hend : atWordEnd (joinedTail ts) = true := atWordEnd_append (stops_joinedTail ts).breaks []
  rw [wordRun_word hword hend, wordRun_joinedTail] at h
  obtain ⟨rfl, rfl⟩ := List.cons.inj h
  exact ⟨String.ofList_toList.symm, rfl⟩

/-- Where no two names stand side by side, no phrase starts. -/
theorem anyPhraseLength?_atoms (hroles : ∀ t ∈ a :: ts, ∃ role, HasRole t role)
    (hheads : ∀ t ∈ a :: ts, ∃ c cs, t.toList = c :: cs ∧ isGap c = false)
    (hapart : ∀ b, ts.head? = some b → HasRole a .var → ¬ HasRole b .var) :
    anyPhraseLength? (a.toList ++ joinedTail ts) = none := by
  cases hany : anyPhraseLength? (a.toList ++ joinedTail ts) with
  | none => rfl
  | some n =>
    have hlong : ∀ ws ∈ phrases, 2 ≤ ws.length := by decide
    obtain ⟨ws, hws, p, rest, hcs, -, hp, hrest⟩ := anyPhraseLength?_some hany
    have hnamed : ∀ w ∈ ws, HasRole (String.ofList w) .var := fun w hw => phrases_named hws hw
    have hrun := wordRun_spells hp hrest
    rw [← hcs] at hrun
    -- a phrase has at least two words: the atom is the first, so the next atom is the second
    rcases ws with - | ⟨v, - | ⟨w, ws⟩⟩
    · exact absurd (hlong _ hws) (by decide)
    · exact absurd (hlong _ hws) (by simp)
    · obtain ⟨role, ha⟩ := hroles a List.mem_cons_self
      obtain ⟨rfl, hmore⟩ := wordRun_atoms ha (hheads a List.mem_cons_self)
        (hnamed v (by simp)) hrun
      cases ts with
      | nil => cases hmore
      | cons b ts =>
        have hb : b ∈ String.ofList v :: b :: ts := by simp
        obtain ⟨role', hrole⟩ := hroles b hb
        rw [toList_spaced] at hmore
        obtain ⟨rfl, -⟩ := wordRun_atoms hrole (hheads b hb) (hnamed w (by simp)) hmore
        exact absurd (hnamed w (by simp)) (hapart _ rfl (hnamed v (by simp)))

/-! ## Names side by side -/

/-- Behind a name the acceptor reads no other name. -/
theorem reads_names_apart {mode : Mode} {depth : Nat} {roles : List Role}
    (h : reads mode depth roles = true) : ¬ [Role.var, Role.var] <:+: roles := by
  induction roles generalizing mode depth with
  | nil => simp
  | cons role roles ih =>
    rw [List.infix_cons_iff]
    rintro (hfront | hbehind)
    · obtain ⟨rest, hrest⟩ := hfront
      cases hrest
      cases mode <;> cases h
    · rw [reads] at h
      cases hnext : mode.next role with
      | none =>
        rw [hnext] at h
        cases h
      | some mode' =>
        rw [hnext] at h
        cases role with
        | closing => exact ih (Bool.and_eq_true_iff.1 h).2 hbehind
        | _ => exact ih h hbehind

/-- Names side by side keep their roles. -/
theorem Passes.names {vars : Variables} {expected : ValueType} {sign : Bool} {operands : Nat}
    {rs : List Role} {narrows : Bool} (h : Passes vars expected sign operands ts rs narrows)
    {b : String} (ha : HasRole a .var) (hb : HasRole b .var) (hab : [a, b] <:+: ts) :
    [Role.var, Role.var] <:+: rs := by
  induction h with
  | nil => simp at hab
  | negated hn _ _ ih =>
    rcases List.infix_cons_iff.1 hab with hfront | hab
    · obtain ⟨rfl, -⟩ := List.cons_prefix_cons.1 hfront
      cases ha.unique .minus
    · rcases List.infix_cons_iff.1 hab with hfront | hab
      · obtain ⟨rfl, -⟩ := List.cons_prefix_cons.1 hfront
        cases ha.unique (.number hn)
      · exact (ih hab).trans (List.suffix_cons _ _).isInfix
  | token _ hrole _ h ih =>
    rcases List.infix_cons_iff.1 hab with hfront | hab
    · obtain ⟨rfl, rest, rfl⟩ := List.cons_prefix_cons.1 hfront
      obtain rfl := ha.unique hrole
      cases h with
      | token _ hrole' _ _ =>
        obtain rfl := hb.unique hrole'
        exact (List.prefix_append [Role.var, Role.var] _).isInfix
    · exact (ih hab).trans (List.suffix_cons _ _).isInfix

section

variable {vars : Variables} {expected : ValueType} {e : Expression} {roles : List Role}

/-- No two names stand side by side in an accepted expression. -/
theorem Accepted.names_apart (h : Accepted vars expected e roles) {a b : String}
    (hab : [a, b] <:+: e.atoms) (ha : HasRole a .var) : ¬ HasRole b .var := by
  intro hb
  have hreads : reads .start 0 roles = true := h.formed.reading
  exact reads_names_apart hreads (h.passes.names ha hb hab)

/-! ## The two scanners -/

/-- Atoms without two names side by side are the lexemes of their joined text. -/
theorem scans_atoms {expr : String} {ts : List String} (hmem : ∀ t ∈ ts, t ∈ cut expr)
    (hroles : ∀ t ∈ ts, ∃ role, HasRole t role)
    (hapart : ∀ a b, [a, b] <:+: ts → HasRole a .var → ¬ HasRole b .var) :
    Scans (spaced ts).toList (ts.map String.toList) := by
  induction ts with
  | nil => exact .nil
  | cons a ts ih =>
    have hfound : ∀ t ∈ a :: ts, Found t (joinedTail ts) := fun t ht =>
      (hroles t ht).elim fun role hrole => hrole.found (hmem t ht) (stops_joinedTail ts)
    have hno : anyPhraseLength? (a.toList ++ joinedTail ts) = none := by
      refine anyPhraseLength?_atoms hroles (fun t ht => (hfound t ht).head) fun b hb ha => ?_
      cases ts with
      | nil => cases hb
      | cons c ts =>
        cases hb
        exact hapart a b (List.prefix_append [a, b] ts).isInfix ha
    have htail : Scans (spaced ts).toList (ts.map String.toList) := by
      refine ih (fun t ht => hmem t (List.mem_cons_of_mem a ht))
        (fun t ht => hroles t (List.mem_cons_of_mem a ht)) fun b c hbc => ?_
      exact hapart b c (hbc.trans (List.suffix_cons a ts).isInfix)
    have hatom := hfound a List.mem_cons_self
    rw [toList_spaced, List.map_cons]
    refine .piece ?_ (hatom.length hno) htail.joinedTail
    obtain ⟨c, cs, hcs, hc⟩ := hatom.head
    rw [hcs]
    rintro d ⟨⟩
    exact hc

theorem Accepted.tokenize_text (h : Accepted vars expected e roles) {expr : String}
    (hcut : e.atoms = cut expr) : tokenize e.text = e.atoms := by
  have hmem : ∀ t ∈ e.atoms, t ∈ cut expr := fun t ht => hcut ▸ ht
  have hroles := h.passes.hasRole
  have hscans := scans_atoms hmem hroles fun a b hab => h.names_apart hab
  rw [tokenize, scan, text, hscans.texts 0, List.map_map]
  have hverbatim : ∀ t ∈ e.atoms, (normalise ∘ String.toList) t = t := by
    intro t ht
    obtain ⟨role, hrole⟩ := hroles t ht
    exact (hrole.found (hmem t ht) (stops_joinedTail [])).verbatim
  rw [List.map_congr_left hverbatim, List.map_id']

/-- Of the atoms that fit somewhere only the operator words are lowered to something else. -/
theorem HasRole.symbol {t : String} {role : Role} (h : HasRole t role) :
    Target.symbol t = (Vocabulary.arithmetic.lookup t).getD t := by
  have hno : ∀ p ∈ Vocabulary.comparisons, Expression.role? p.1 = none := by decide
  unfold Target.symbol
  cases Vocabulary.arithmetic.lookup t with
  | some op => rfl
  | none =>
    cases hop : Vocabulary.comparisons.lookup t with
    | none => rfl
    | some op =>
      have hrole := hno _ (mem_of_lookup hop)
      rw [h.role?] at hrole
      cases hrole

/-- Read again, the text of an accepted expression falls into the atoms that were checked, and it is
lowered to these atoms with the operator words replaced. -/
theorem scanners_agree {expr : String} (h : check vars expr expected = .ok e) :
    e.atoms = cut expr ∧ tokenize e.text = e.atoms ∧
      Target.lower e.text =
        spaced (e.atoms.map fun t => (Vocabulary.arithmetic.lookup t).getD t) := by
  obtain ⟨hcut, roles, haccepted⟩ := check_accepted h
  have htokens := haccepted.tokenize_text hcut
  refine ⟨hcut, htokens, ?_⟩
  rw [Target.lower, htokens]
  refine congrArg spaced (List.map_congr_left fun t ht => ?_)
  obtain ⟨role, hrole⟩ := haccepted.passes.hasRole t ht
  exact hrole.symbol

end

/-- Names that start a phrase and a string that holds one. -/
theorem scanners_agree_phrases :
    ∃ e, check [("less", .text), ("equal", .integer), ("to", .integer)]
        "less add\"equal to\"add(equal add to)" .text = .ok e ∧
      tokenize e.text = ["less", "add", "\"equal to\"", "add", "(", "equal", "add", "to", ")"] ∧
      Target.lower e.text = "less + \"equal to\" + ( equal + to )" := by
  let vars : Variables := [("less", .text), ("equal", .integer), ("to", .integer)]
  let expr := "less add\"equal to\"add(equal add to)"
  have hcut : cut expr =
      ["less", "add", "\"equal to\"", "add", "(", "equal", "add", "to", ")"] := by
    decide +kernel
  have hok : check vars expr .text = .ok ⟨cut expr, false⟩ := by
    rw [hcut]
    exact except_toOption_eq_some.1 (by decide +kernel)
  obtain ⟨-, htokens, hcode⟩ := scanners_agree hok
  refine ⟨_, hok, htokens.trans hcut, ?_⟩
  rw [hcode, hcut]
  decide +kernel

end Expression

end Courtesy
