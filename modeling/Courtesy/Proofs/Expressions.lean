import Courtesy.Proofs.Gates
import Courtesy.Proofs.Lexemes

/-!
# Quotes in an expression

Between the line and the code an expression is taken apart and put together again three times. Two
of these passes keep what stands between quotes: cutting into atoms (`atoms_cut`) and lowering
(`lower_closed`). Parting an operator word from the digit behind it does not ask for quotes: it acts
on each quoted segment as on any other text (`quoted_respace`), and leaves alone exactly those in
which no such word occurs (`respace_eq_self_iff`).
-/

namespace Courtesy

open Text

namespace Expression

/-! ## Operator words in front of digits -/

/-- The text starts with an operator word that runs into a digit. -/
def glued : List Char → Bool
  | a :: b :: c :: d :: _ => isOperatorWord [a, b, c] && d.isDigit
  | _ => false

variable {cs : List Char} {a c : Char} {expr atom : String} {vars : Variables}
  {expected : ValueType}

theorem isWordChar_of_isOperatorWord (h : isOperatorWord cs = true) :
    ∀ c ∈ cs, isWordChar c = true := by
  simp only [isOperatorWord, Bool.or_eq_true, beq_iff_eq] at h
  rcases h with ((rfl | rfl) | rfl) | rfl <;> exact List.all_eq_true.1 rfl

theorem glued_iff : glued cs = true ↔
    ∃ a b c d rest, cs = a :: b :: c :: d :: rest ∧ isOperatorWord [a, b, c] = true ∧
      d.isDigit = true := by
  constructor
  · intro h
    unfold glued at h
    split at h
    · rename_i a b c d rest
      exact ⟨a, b, c, d, rest, rfl, Bool.and_eq_true_iff.1 h⟩
    · cases h
  · rintro ⟨a, b, c, d, rest, rfl, h⟩
    exact Bool.and_eq_true_iff.2 h

/-- No operator word reaches over a character that belongs to no word. -/
theorem glued_append_stop {q : Char} (hq : isWordChar q = false) (a b : List Char) :
    glued (a ++ q :: b) = glued a := by
  have hstop : ∀ {x y z d : Char}, isOperatorWord [x, y, z] = true → d.isDigit = true →
      q ∉ [x, y, z, d] := by
    intro x y z d hw hd hm
    have hall : ∀ c ∈ [x, y, z, d], isWordChar c = true := by
      intro c hc
      rcases List.mem_append.1 (show c ∈ [x, y, z] ++ [d] from hc) with hc | hc
      · exact isWordChar_of_isOperatorWord hw c hc
      · rw [List.mem_singleton.1 hc]
        exact isWordChar_of_isDigit hd
    rw [hall q hm] at hq
    cases hq
  rw [Bool.eq_iff_iff, glued_iff, glued_iff]
  constructor
  · rintro ⟨x, y, z, d, rest, heq, hw, hd⟩
    have hno := hstop hw hd
    match a, heq with
    | [], heq => cases heq; simp at hno
    | [_], heq => cases heq; simp at hno
    | [_, _], heq => cases heq; simp at hno
    | [_, _, _], heq => cases heq; simp at hno
    | x' :: y' :: z' :: d' :: a, heq =>
      cases heq
      exact ⟨x, y, z, d, a, rfl, hw, hd⟩
  · rintro ⟨x, y, z, d, rest, rfl, h⟩
    exact ⟨x, y, z, d, rest ++ q :: b, rfl, h⟩

theorem respace_cons {inWord : Bool} (h : inWord = true ∨ glued (a :: cs) = false) :
    respace inWord (a :: cs) = a :: respace (isWordChar a) cs := by
  match cs with
  | [] => simp [respace]
  | [b] => simp [respace]
  | [b, c] => simp [respace]
  | b :: c :: d :: rest =>
    have hno : (!inWord && isOperatorWord [a, b, c] && d.isDigit) = false := by
      rcases h with rfl | h
      · rfl
      · rw [Bool.and_assoc]
        exact (congrArg (!inWord && ·) h).trans (Bool.and_false _)
    rw [respace, hno, if_neg (by decide)]

theorem respace_glued {b d : Char} {rest : List Char} (hw : isOperatorWord [a, b, c] = true)
    (hd : d.isDigit = true) : respace false (a :: b :: c :: d :: rest) =
      a :: b :: c :: ' ' :: d :: respace true rest := by
  rw [respace, hw, hd]
  rfl

/-- Induction along the operator words of a text. -/
theorem respace_induction {P : Bool → List Char → Prop} (nil : ∀ inWord, P inWord [])
    (cons : ∀ inWord a cs, (inWord = true ∨ glued (a :: cs) = false) → P (isWordChar a) cs →
      P inWord (a :: cs))
    (glue : ∀ a b c d rest, isOperatorWord [a, b, c] = true → d.isDigit = true → P true rest →
      P false (a :: b :: c :: d :: rest)) (inWord : Bool) (cs : List Char) : P inWord cs := by
  induction hlen : cs.length using Nat.strongRecOn generalizing inWord cs with
  | ind len ih =>
    cases cs with
    | nil => exact nil inWord
    | cons a cs =>
      have step (h : inWord = true ∨ glued (a :: cs) = false) : P inWord (a :: cs) :=
        cons inWord a cs h (ih cs.length (by simp [← hlen]) _ cs rfl)
      cases inWord with
      | true => exact step (.inl rfl)
      | false =>
        cases hg : glued (a :: cs) with
        | false => exact step (.inr hg)
        | true =>
          obtain ⟨a, b, c, d, rest, heq, hw, hd⟩ := glued_iff.1 hg
          rw [heq] at hlen ⊢
          exact glue a b c d rest hw hd
            (ih rest.length (by simp only [← hlen, List.length_cons]; omega) _ rest rfl)

/-- A character that belongs to no word parts a text for good. -/
theorem respace_append_stop {q : Char} (hq : isWordChar q = false) (inWord : Bool)
    (a b : List Char) :
    respace inWord (a ++ q :: b) = respace inWord a ++ q :: respace false b := by
  induction inWord, a using respace_induction with
  | nil inWord =>
    have hg : glued (q :: b) = false := glued_append_stop hq [] b
    rw [List.nil_append, respace_cons (.inr hg), hq]
    simp [respace]
  | cons inWord x a h ih =>
    have hg : inWord = true ∨ glued (x :: (a ++ q :: b)) = false := by
      rw [← List.cons_append, glued_append_stop hq]
      exact h
    rw [List.cons_append, respace_cons hg, ih, respace_cons h, List.cons_append]
  | glue x y z d rest hw hd ih =>
    simp only [List.cons_append, respace_glued hw hd, ih]

/-- Nothing but spaces comes in. -/
theorem mem_respace (hc : c ≠ ' ') (inWord : Bool) (cs : List Char) :
    c ∈ respace inWord cs ↔ c ∈ cs := by
  induction inWord, cs using respace_induction with
  | nil inWord => simp [respace]
  | cons inWord a cs h ih => rw [respace_cons h, List.mem_cons, List.mem_cons, ih]
  | glue a b c d rest hw hd ih =>
    rw [respace_glued hw hd]
    simp [hc, ih]

theorem length_le_length_respace (inWord : Bool) (cs : List Char) :
    cs.length ≤ (respace inWord cs).length := by
  induction inWord, cs using respace_induction with
  | nil inWord => exact Nat.zero_le _
  | cons inWord a cs h ih =>
    rw [respace_cons h]
    exact Nat.succ_le_succ ih
  | glue a b c d rest hw hd ih =>
    rw [respace_glued hw hd]
    simp only [List.length_cons]
    omega

/-- Spacing brings spaces in or changes nothing. -/
theorem respace_spaces (inWord : Bool) (cs : List Char) :
    respace inWord cs = cs ∨ cs.count ' ' < (respace inWord cs).count ' ' := by
  suffices hall : cs.count ' ' ≤ (respace inWord cs).count ' ' ∧
      (respace inWord cs = cs ∨ cs.count ' ' < (respace inWord cs).count ' ') from hall.2
  induction inWord, cs using respace_induction with
  | nil inWord => exact ⟨Nat.le_refl _, .inl (by simp [respace])⟩
  | cons inWord a cs h ih =>
    rw [respace_cons h, List.count_cons, List.count_cons]
    refine ⟨Nat.add_le_add_right ih.1 _, ih.2.imp (congrArg (a :: ·)) fun hlt => ?_⟩
    exact Nat.add_lt_add_right hlt _
  | glue a b c d rest hw hd ih =>
    have hlt : (a :: b :: c :: d :: rest).count ' ' <
        (respace false (a :: b :: c :: d :: rest)).count ' ' := by
      have hle := ih.1
      rw [respace_glued hw hd]
      simp only [List.count_cons, beq_self_eq_true, if_true]
      omega
    exact ⟨Nat.le_of_lt hlt, .inr hlt⟩

/-- Somewhere in the text an operator word runs into a digit, and does not continue another word.
The first argument says whether the character in front of the text was a word character. -/
def RunsOn (inWord : Bool) (cs : List Char) : Prop :=
  ∃ before word digit behind, cs = before ++ (word ++ digit :: behind) ∧
    isOperatorWord word = true ∧ digit.isDigit = true ∧
      (before.getLast?.map isWordChar).getD inWord = false

theorem runsOn_cons {inWord : Bool} :
    RunsOn inWord (a :: cs) ↔
      (inWord = false ∧ glued (a :: cs) = true) ∨ RunsOn (isWordChar a) cs := by
  constructor
  · rintro ⟨before, word, digit, behind, heq, hw, hd, hstart⟩
    cases before with
    | nil =>
      refine .inl ⟨hstart, glued_iff.2 ?_⟩
      have hlen : word.length = 3 := by
        simp only [isOperatorWord, Bool.or_eq_true, beq_iff_eq] at hw
        rcases hw with ((rfl | rfl) | rfl) | rfl <;> rfl
      match word, hlen with
      | [x, y, z], _ => exact ⟨x, y, z, digit, behind, heq, hw, hd⟩
    | cons b before =>
      rw [List.cons_append] at heq
      obtain ⟨rfl, rfl⟩ := List.cons.inj heq
      refine .inr ⟨before, word, digit, behind, rfl, hw, hd, ?_⟩
      cases before with
      | nil => exact hstart
      | cons c before => rwa [List.getLast?_cons_cons] at hstart
  · rintro (⟨hstart, hg⟩ | ⟨before, word, digit, behind, rfl, hw, hd, hstart⟩)
    · obtain ⟨x, y, z, d, rest, heq, hw, hd⟩ := glued_iff.1 hg
      exact ⟨[], [x, y, z], d, rest, heq, hw, hd, hstart⟩
    · refine ⟨a :: before, word, digit, behind, rfl, hw, hd, ?_⟩
      cases before with
      | nil => exact hstart
      | cons c before => rwa [List.getLast?_cons_cons]

/-- Spacing leaves a text alone exactly when no operator word runs into a digit. -/
theorem respace_eq_self_iff (inWord : Bool) (cs : List Char) :
    respace inWord cs = cs ↔ ¬ RunsOn inWord cs := by
  induction inWord, cs using respace_induction with
  | nil inWord =>
    refine iff_of_true (by simp [respace]) ?_
    rintro ⟨before, word, digit, behind, heq, -⟩
    simp at heq
  | cons inWord a cs h ih =>
    have hno : ¬ (inWord = false ∧ glued (a :: cs) = true) := by
      rintro ⟨rfl, hg⟩
      rcases h with h | h
      · cases h
      · rw [hg] at h
        cases h
    rw [respace_cons h, List.cons.injEq, and_iff_right rfl, ih, runsOn_cons, or_iff_right hno]
  | glue a b c d rest hw hd ih =>
    refine iff_of_false ?_ (not_not_intro ?_)
    · intro heq
      have hlen := congrArg List.length heq
      have hle := length_le_length_respace true rest
      rw [respace_glued hw hd] at hlen
      simp only [List.length_cons] at hlen
      omega
    · exact runsOn_cons.2 (.inl ⟨rfl, glued_iff.2 ⟨a, b, c, d, rest, rfl, hw, hd⟩⟩)

theorem plain_respace {p : List Char} (h : Plain p) (inWord : Bool) : Plain (respace inWord p) :=
  fun hm => h ((mem_respace (by decide) inWord p).1 hm)

theorem respace_literal (inWord : Bool) (p body rest : List Char) :
    respace inWord (p ++ '"' :: (body ++ '"' :: rest)) =
      respace inWord p ++ '"' :: (respace false body ++ '"' :: respace false rest) := by
  rw [respace_append_stop (by decide), respace_append_stop (by decide)]

theorem closed_respace (h : Closed cs) (inWord : Bool) : Closed (respace inWord cs) := by
  induction h generalizing inWord with
  | plain hp => exact .plain (plain_respace hp inWord)
  | literal hp hb _ ih =>
    rw [respace_literal]
    exact .literal (plain_respace hp inWord) (plain_respace hb false) (ih false)

/-- Each quoted segment is spaced as a text of its own. -/
theorem quoted_respace (h : Closed cs) (inWord : Bool) :
    quoted (respace inWord cs) = (quoted cs).map (respace false) := by
  induction h generalizing inWord with
  | plain hp =>
    rw [quoted_plain (plain_respace hp inWord), quoted_plain hp]
    rfl
  | literal hp hb _ ih =>
    rw [respace_literal, quoted_literal (plain_respace hp inWord) (plain_respace hb false),
      quoted_literal hp hb, List.map_cons, ih]

theorem mem_bare_respace (hc : c ≠ ' ') (h : Closed cs) (inWord : Bool) :
    c ∈ bare (respace inWord cs) ↔ c ∈ bare cs := by
  induction h generalizing inWord with
  | plain hp => rw [bare_plain (plain_respace hp inWord), bare_plain hp, mem_respace hc]
  | literal hp hb _ ih =>
    rw [respace_literal, bare_literal (plain_respace hp inWord) (plain_respace hb false),
      bare_literal hp hb, List.mem_append, List.mem_append, mem_respace hc, ih]

/-! ## Atoms -/

theorem number_plain {n : Nat} (h : numberLength? cs = some n) : 0 < n ∧ Plain (cs.take n) := by
  unfold numberLength? at h
  dsimp only at h
  generalize hsign : (if cs.head? = some '-' then 1 else 0) = sign at h
  have hint : Plain (cs.take (sign + Lexeme.digitCount (cs.drop sign))) :=
    Lexeme.plain_take_add (hsign ▸ Lexeme.plain_sign cs) (Lexeme.plain_digits _)
  split at h
  · cases h
  · split at h
    · cases h
      exact ⟨by omega, hint⟩
    · rename_i hfrac
      cases h
      exact ⟨by omega, Lexeme.plain_take_add hint (Lexeme.plain_fraction hfrac)⟩

theorem atomLength?_takes {n : Nat} (h : atomLength? cs = some n) : 0 < n ∧ Takes cs n := by
  have plain (h : 0 < n ∧ Plain (cs.take n)) : 0 < n ∧ Takes cs n := ⟨h.1, .plain h.2⟩
  simp only [atomLength?, orElse_eq_some] at h
  rcases h with h | ⟨-, h | ⟨hs, h | ⟨-, h⟩⟩⟩
  · exact plain (number_plain h)
  · exact Lexeme.closedString_takes h
  · exact plain (Lexeme.word_plain h)
  · exact Lexeme.single_takes hs h

theorem atomsFrom_skip (n : Nat) (cs : List Char) : atomsFrom n cs = atomsFrom 0 (cs.drop n) := by
  induction n generalizing cs with
  | zero => rfl
  | succ n ih =>
    cases cs with
    | nil => rfl
    | cons c cs => exact ih cs

theorem atoms_cut (cs : List Char) : Cut isPhraseSpace cs (atomsFrom 0 cs) := by
  induction hlen : cs.length using Nat.strongRecOn generalizing cs with
  | ind len ih =>
    cases cs with
    | nil => exact .nil
    | cons c cs =>
      rw [atomsFrom]
      split
      · rename_i n hn
        rw [atomsFrom_skip]
        refine (atomLength?_takes hn).2.cut (ih (cs.drop n).length ?_ (cs.drop n) rfl)
        simp only [← hlen, List.length_drop, List.length_cons]
        omega
      · rename_i hno
        refine .gap ?_ (ih cs.length (by simp [← hlen]) cs rfl)
        -- whatever is no atom is white space
        cases ha : atomLength? (c :: cs) with
        | none =>
          cases hc : isPhraseSpace c with
          | true => rfl
          | false => simp [atomLength?, Lexeme.singleLength?, hc] at ha
        | some n =>
          have hpos := (atomLength?_takes ha).1
          obtain ⟨m, rfl⟩ := Nat.exists_eq_add_one_of_ne_zero (Nat.ne_of_gt hpos)
          exact absurd ha (hno m)

theorem mem_cut (h : atom ∈ cut expr) : atom.toList ∈ atomsFrom 0 (respace false expr.toList) := by
  obtain ⟨p, hp, rfl⟩ := List.mem_map.1 h
  rwa [String.toList_ofList]

theorem flatMap_cut {α : Type} (f : List Char → List α) (expr : String) :
    (cut expr).flatMap (f ·.toList) = (atomsFrom 0 (respace false expr.toList)).flatMap f := by
  simp [cut, List.flatMap_map]

theorem whole_of_mem_cut (h : Closed expr.toList) (ha : atom ∈ cut expr) : Whole atom.toList :=
  (atoms_cut _).whole (by decide) (closed_respace h false) _ (mem_cut ha)

theorem plain_of_isPhraseSpace (h : isPhraseSpace c = true) : Plain [c] := by
  refine plain_cons.2 ⟨?_, plain_nil⟩
  rintro rfl
  exact absurd h (by decide)

/-- The quoted segments of the atoms are those of the expression, each spaced. -/
theorem flatMap_quoted_cut (h : Closed expr.toList) :
    (cut expr).flatMap (quoted ·.toList) = (quoted expr.toList).map (respace false) := by
  rw [flatMap_cut, (atoms_cut _).flatMap (closed_respace h false) additive_quoted
    (fun c hc => quoted_plain (plain_of_isPhraseSpace hc)) (by decide), quoted_respace h]

/-- White space apart, the atoms hold outside of quotes what the expression holds there. -/
theorem exists_atom_iff_mem_bare (h : Closed expr.toList) (hc : isPhraseSpace c = false) :
    (∃ atom ∈ cut expr, c ∈ bare atom.toList) ↔ c ∈ bare expr.toList := by
  have hne : c ≠ ' ' := by
    rintro rfl
    exact absurd hc (by decide)
  have hflat := (atoms_cut (respace false expr.toList)).flatMap (closed_respace h false)
    (additive_filter_bare c) (fun d hd => by
      have hdc : d ≠ c := by
        rintro rfl
        rw [hc] at hd
        cases hd
      simp [bare_plain (plain_of_isPhraseSpace hd), hdc]) (by decide)
  rw [← flatMap_cut] at hflat
  have hmem : ∀ cs : List Char, c ∈ cs.filter (· == c) ↔ c ∈ cs := by simp
  rw [← mem_bare_respace hne h false, ← hmem, ← hflat, List.mem_flatMap]
  simp only [hmem]

/-! ## Atoms that fit somewhere -/

/-- An atom that fits somewhere holds no brace outside of quotes. -/
theorem HasRole.not_mem_bare {role : Role} (hw : Whole atom.toList) (h : HasRole atom role) :
    '\x7b' ∉ bare atom.toList := by
  generalize hcs : atom.toList = cs at hw
  cases hw with
  | @literal body hb =>
    have : bare ('"' :: (body ++ ['"'])) = [] := bare_literal (p := []) plain_nil hb []
    rw [this]
    exact List.not_mem_nil
  | plain hp =>
    rw [bare_plain hp, ← hcs]
    rw [← hcs] at hp
    intro hm
    cases h with
    | number hn => exact absurd (chars_of_isNumber (Literal.isNumber_iff.2 hn) _ hm) (by decide)
    | string hs =>
      unfold Literal.isString at hs
      split at hs
      · rename_i heq
        rw [heq] at hp
        exact absurd rfl (plain_cons.1 hp).1
      · cases hs
    | boolean hb =>
      simp only [Vocabulary.isBoolean, Bool.or_eq_true, beq_iff_eq] at hb
      rcases hb with rfl | rfl <;> exact absurd hm (by decide)
    | name hx _ => exact absurd (Literal.isWordChar_of_isIdentifier hx _ hm) (by decide)
    | _ => exact absurd hm (by decide)

theorem not_mem_bare_of_check {e : Expression} (hc : Closed expr.toList)
    (h : check vars expr expected = .ok e) : '\x7b' ∉ bare expr.toList := by
  intro hm
  obtain ⟨atom, hatom, hin⟩ := (exists_atom_iff_mem_bare hc (by decide)).2 hm
  obtain ⟨hcut, roles, haccepted⟩ := check_accepted h
  obtain ⟨role, hrole⟩ := haccepted.passes.hasRole atom (hcut ▸ hatom)
  exact hrole.not_mem_bare (whole_of_mem_cut hc hatom) hin

end Expression

/-! ## Lowering -/

namespace Target

/-- Only words without quotes are replaced, and by such. -/
theorem symbol_cases (t : String) :
    symbol t = t ∨ (Plain t.toList ∧ Plain (symbol t).toList) := by
  have table : ∀ {words : List (String × String)} {op : String},
      (∀ p ∈ words, Plain p.1.toList ∧ Plain p.2.toList) → words.lookup t = some op →
      Plain t.toList ∧ Plain op.toList := by
    intro words op hall hop
    exact hall (t, op) (mem_of_lookup hop)
  unfold symbol
  split
  · rename_i op hop
    exact .inr (table (by decide +kernel) hop)
  · cases hop : Vocabulary.comparisons.lookup t with
    | none => exact .inl rfl
    | some op => exact .inr (table (by decide +kernel) hop)

/-- Lowering a piece keeps what it quotes. -/
theorem symbol_normalise {p : List Char} (h : Whole p) :
    Closed (symbol (Lexeme.normalise p)).toList ∧
      quoted (symbol (Lexeme.normalise p)).toList = quoted p := by
  cases h with
  | plain hp =>
    have hs : Plain (symbol (Lexeme.normalise p)).toList := by
      rcases symbol_cases (Lexeme.normalise p) with h | h
      · rw [h]
        exact Lexeme.normalise_plain hp
      · exact h.2
    exact ⟨.plain hs, by rw [quoted_plain hs, quoted_plain hp]⟩
  | @literal body hb =>
    have htext := Lexeme.normalise_quote (body ++ ['"'])
    rcases symbol_cases (Lexeme.normalise ('"' :: (body ++ ['"']))) with h | h
    · rw [h, htext]
      exact ⟨closed_literal hb, rfl⟩
    · rw [htext] at h
      exact absurd rfl (plain_cons.1 h.1).1

theorem lower_closed {s : String} (h : Closed s.toList) :
    Closed (lower s).toList ∧ quoted (lower s).toList = quoted s.toList := by
  obtain ⟨ps, hcut, hps⟩ := tokenize_cut s
  have hwhole := hcut.whole (by decide) h
  have hclosed : ∀ t ∈ (tokenize s).map symbol, Closed t.toList := by
    rw [hps, List.map_map]
    intro t ht
    obtain ⟨p, hp, rfl⟩ := List.mem_map.1 ht
    exact (symbol_normalise (hwhole p hp)).1
  have hspace : Plain " ".toList := by decide
  refine ⟨closed_intercalate hspace hclosed, ?_⟩
  rw [lower, spaced, additive_quoted.intercalate hspace (quoted_plain hspace) hclosed, hps,
    List.map_map, List.flatMap_map, ← hcut.flatMap h additive_quoted ?_ (by decide)]
  · rw [List.flatMap_def, List.flatMap_def]
    exact congrArg List.flatten (List.map_congr_left fun p hp => (symbol_normalise (hwhole p hp)).2)
  · intro c hc
    refine quoted_plain (plain_cons.2 ⟨?_, plain_nil⟩)
    rintro rfl
    exact absurd hc (by decide)

end Target

end Courtesy
