import Courtesy.Proofs.Quotes
import Courtesy.Proofs.Tokens

/-!
# Lexemes and quotes

A line is read by recognisers that answer how many characters belong to the next lexeme. None of
them takes a quote into a lexeme that is not a literal (`Takes`), so that a line is cut as
`Text.Cut` says (`tokenize_cut`). A token of a line is a literal if it is a string, and free of
quotes otherwise (`Token.sound_of_ofLine`).
-/

namespace Courtesy

open Text

/-! ## Recognisers -/

/-- Taking `n` characters respects the quotes of a text. -/
inductive Takes (cs : List Char) (n : Nat) : Prop
  | plain (h : Plain (cs.take n))
  | literal {body rest : List Char} (hb : Plain body) (hcs : cs = '"' :: (body ++ '"' :: rest))
      (hn : n = body.length + 2)
  | opened {p : List Char} (hp : Plain p) (hcs : cs = '"' :: p)

theorem Takes.cut {gap : Char → Bool} {cs : List Char} {n : Nat} {ps : List (List Char)}
    (h : Takes cs (n + 1)) (hr : Cut gap (cs.drop (n + 1)) ps) :
    Cut gap cs (cs.take (n + 1) :: ps) := by
  cases h with
  | plain h =>
    have := Cut.plain h hr
    rwa [List.take_append_drop] at this
  | @literal body rest hb hcs hn =>
    have htext : cs = '"' :: (body ++ ['"']) ++ rest := by simp [hcs]
    have hlen : n + 1 = ('"' :: (body ++ ['"'])).length := by simp [hn]
    rw [hlen, htext, List.drop_left] at hr
    rw [hlen, htext, List.take_left, ← htext, hcs]
    exact .literal hb hr
  | @opened p hp hcs =>
    subst hcs
    rw [List.drop_succ_cons] at hr
    rw [List.take_succ_cons]
    have := Cut.opened (by rwa [List.take_append_drop n p]) hr
    rwa [List.take_append_drop] at this

theorem orElse_eq_some {α : Type} {x y : Option α} {a : α} :
    (x <|> y) = some a ↔ x = some a ∨ (x = none ∧ y = some a) := by
  cases x <;> simp

namespace Lexeme

theorem take_takeWhile (p : Char → Bool) (cs : List Char) :
    cs.take (cs.takeWhile p).length = cs.takeWhile p :=
  (List.prefix_iff_eq_take.1 (List.takeWhile_prefix p)).symm

theorem plain_takeWhile {p : Char → Bool} (h : p '"' = false) (cs : List Char) :
    Plain (cs.takeWhile p) := by
  intro hm
  have := List.all_eq_true.1 (List.all_takeWhile (p := p) (l := cs)) _ hm
  rw [h] at this
  cases this

variable {cs : List Char} {c : Char} {n : Nat}

theorem plain_take_add {i j : Nat} (hi : Plain (cs.take i)) (hj : Plain ((cs.drop i).take j)) :
    Plain (cs.take (i + j)) := by
  rw [List.take_add]
  exact plain_append.2 ⟨hi, hj⟩

/-- A head and a run of a class behind it. -/
theorem plain_take_run {p : Char → Bool} (hp : p '"' = false) (hc : c ≠ '"') (cs : List Char) :
    Plain ((c :: cs).take ((cs.takeWhile p).length + 1)) := by
  rw [List.take_succ_cons, take_takeWhile]
  exact plain_cons.2 ⟨hc, plain_takeWhile hp cs⟩

theorem plain_digits (cs : List Char) : Plain (cs.take (digitCount cs)) := by
  rw [digitCount, take_takeWhile]
  exact plain_takeWhile (by decide) cs

theorem plain_sign (cs : List Char) : Plain (cs.take (if cs.head? = some '-' then 1 else 0)) := by
  split
  · rename_i h
    cases cs with
    | nil => cases h
    | cons c cs =>
      cases h
      exact plain_cons.2 ⟨by decide, plain_nil⟩
  · exact plain_nil

theorem plain_fraction (h : fractionCount cs ≠ 0) : Plain (cs.take (fractionCount cs + 1)) := by
  unfold fractionCount at h ⊢
  split at h
  · exact plain_cons.2 ⟨by decide, plain_digits _⟩
  · exact absurd rfl h

theorem plain_phrase {ws : List (List Char)} (hws : ∀ w ∈ ws, w ≠ [] ∧ Plain w)
    (h : phraseLength? ws cs = some n) : 0 < n ∧ Plain (cs.take n) := by
  fun_induction phraseLength? ws cs generalizing n with
  | case1 => cases h
  | case2 w cs hw =>
    cases h
    obtain ⟨hne, hp⟩ := hws w (by simp)
    rw [← List.prefix_iff_eq_take.1 (List.isPrefixOf_iff_prefix.1 (Bool.and_eq_true_iff.1 hw).1)]
    exact ⟨List.length_pos_iff.2 hne, hp⟩
  | case3 => cases h
  | case4 => cases h
  | case5 w ws cs _ hw gap hgap =>
    rename_i ih
    obtain ⟨m, hm, rfl⟩ := Option.map_eq_some_iff.1 h
    refine ⟨by omega, ?_⟩
    rw [Nat.add_assoc]
    have hword := List.prefix_iff_eq_take.1 (List.isPrefixOf_iff_prefix.1 hw)
    refine plain_take_add (hword ▸ (hws w (by simp)).2) ?_
    refine plain_take_add ?_ ?_
    · rw [take_takeWhile]
      exact plain_takeWhile (by decide) _
    · rw [List.drop_drop]
      exact (ih (fun v hv => hws v (List.mem_cons_of_mem w hv)) hm).2
  | case6 => cases h

theorem plain_anyPhrase (h : anyPhraseLength? cs = some n) : 0 < n ∧ Plain (cs.take n) := by
  obtain ⟨p, hp, h⟩ := List.exists_of_findSome?_eq_some h
  refine plain_phrase ?_ h
  intro w hw
  obtain ⟨s, hs, rfl⟩ := List.mem_map.1 hw
  have : ∀ p ∈ Vocabulary.phrases, ∀ s ∈ p, s.toList ≠ [] ∧ '"' ∉ s.toList := by decide +kernel
  exact this p hp s hs

theorem closedString_literal (h : closedStringLength? cs = some n) :
    ∃ body rest, Plain body ∧ cs = '"' :: (body ++ '"' :: rest) ∧ n = body.length + 2 := by
  unfold closedStringLength? at h
  split at h
  · rename_i cs
    dsimp only at h
    split at h
    · rename_i hlt
      cases h
      refine ⟨cs.takeWhile (· != '"'), (cs.dropWhile (· != '"')).tail,
        plain_takeWhile (by decide) cs, ?_, rfl⟩
      have happ := List.takeWhile_append_dropWhile (p := (· != '"')) (l := cs)
      cases hd : cs.dropWhile (· != '"') with
      | nil =>
        rw [hd, List.append_nil] at happ
        rw [happ] at hlt
        exact absurd hlt (Nat.lt_irrefl _)
      | cons d rest =>
        have hq : d = '"' := by
          have := List.head?_dropWhile_not (· != '"') cs
          rw [hd] at this
          simpa using this
        rw [hd, hq] at happ
        rw [List.tail_cons, happ]
    · cases h
  · cases h

/-- A quote that starts no literal is the last one. -/
theorem plain_of_closedString_none (h : closedStringLength? ('"' :: cs) = none) : Plain cs := by
  simp only [closedStringLength?] at h
  split at h
  · cases h
  · rename_i hlt
    have hpre := List.takeWhile_prefix (· != '"') (l := cs)
    rw [← hpre.eq_of_length_le (Nat.le_of_not_lt hlt)]
    exact plain_takeWhile (by decide) cs

theorem number_plain (h : numberLength? cs = some n) : 0 < n ∧ Plain (cs.take n) := by
  unfold numberLength? at h
  dsimp only at h
  generalize hsign : (if cs.head? = some '-' then 1 else 0) = sign at h
  have hint : Plain (cs.take (sign + digitCount (cs.drop sign))) :=
    plain_take_add (hsign ▸ plain_sign cs) (plain_digits _)
  split at h
  · cases h
  · split at h
    · rename_i hne
      cases h
      exact ⟨by omega, plain_take_add hint (plain_fraction hne.1)⟩
    · split at h
      · cases h
        exact ⟨by omega, hint⟩
      · cases h

theorem word_plain (h : wordLength? cs = some n) : 0 < n ∧ Plain (cs.take n) := by
  unfold wordLength? at h
  split at h
  · split at h
    · rename_i hc
      cases h
      refine ⟨Nat.succ_pos _, plain_take_run (by decide) ?_ _⟩
      rintro rfl
      exact absurd hc (by decide)
    · cases h
  · cases h

theorem mark_plain (h : markLength? cs = some n) : 0 < n ∧ Plain (cs.take n) := by
  unfold markLength? at h
  split at h
  · split at h
    · rename_i hc
      cases h
      refine ⟨Nat.one_pos, plain_cons.2 ⟨?_, plain_nil⟩⟩
      rintro rfl
      exact absurd hc (by decide)
    · cases h
  · cases h

theorem ragged_plain (h : raggedLength? cs = some n) : 0 < n ∧ Plain (cs.take n) := by
  unfold raggedLength? at h
  split at h
  · split at h
    · rename_i hc
      cases h
      refine ⟨Nat.succ_pos _, plain_take_run (by decide) ?_ _⟩
      rintro rfl
      exact absurd hc (by decide)
    · cases h
  · cases h

theorem symbols_plain (h : symbolsLength? cs = some n) : 0 < n ∧ Plain (cs.take n) := by
  unfold symbolsLength? at h
  split at h
  · cases h
  · rename_i hne
    cases h
    rw [take_takeWhile]
    exact ⟨List.length_pos_iff.2 hne, plain_takeWhile (by decide) cs⟩

theorem openString_opened (h : openStringLength? cs = some n) :
    0 < n ∧ ∃ p, Plain p ∧ cs = '"' :: p := by
  unfold openStringLength? at h
  split at h
  · rename_i p
    split at h
    · rename_i hp
      cases h
      refine ⟨Nat.succ_pos _, p, ?_, rfl⟩
      intro hm
      simpa using List.all_eq_true.1 hp _ hm
    · cases h
  · cases h

/-- A single character is a quote only when no literal starts with it. -/
theorem single_takes (hs : closedStringLength? cs = none) (h : singleLength? cs = some n) :
    0 < n ∧ Takes cs n := by
  unfold singleLength? at h
  split at h
  · rename_i c cs
    split at h
    · cases h
    · cases h
      refine ⟨Nat.one_pos, ?_⟩
      by_cases hc : c = '"'
      · subst hc
        exact .opened (plain_of_closedString_none hs) rfl
      · exact .plain (plain_cons.2 ⟨hc, plain_nil⟩)
  · cases h

theorem closedString_takes (h : closedStringLength? cs = some n) : 0 < n ∧ Takes cs n := by
  obtain ⟨body, rest, hb, hcs, rfl⟩ := closedString_literal h
  exact ⟨Nat.succ_pos _, .literal hb hcs rfl⟩

theorem lexemeLength?_takes (h : lexemeLength? cs = some n) : 0 < n ∧ Takes cs n := by
  have plain (h : 0 < n ∧ Plain (cs.take n)) : 0 < n ∧ Takes cs n := ⟨h.1, .plain h.2⟩
  simp only [lexemeLength?, orElse_eq_some] at h
  rcases h with h | ⟨-, h | ⟨hs, h | ⟨-, h | ⟨-, h | ⟨-, h | ⟨-, h | ⟨-, h | ⟨-, h⟩⟩⟩⟩⟩⟩⟩⟩
  · exact plain (plain_anyPhrase h)
  · exact closedString_takes h
  · exact plain (number_plain h)
  · exact plain (word_plain h)
  · exact plain (mark_plain h)
  · obtain ⟨hn, p, hp, hcs⟩ := openString_opened h
    exact ⟨hn, .opened hp hcs⟩
  · exact plain (ragged_plain h)
  · exact plain (symbols_plain h)
  · exact single_takes hs h

theorem lexemeLength?_some (hc : isGap c = false) (cs : List Char) :
    ∃ n, lexemeLength? (c :: cs) = some (n + 1) := by
  cases h : lexemeLength? (c :: cs) with
  | none =>
    have hp : isPhraseSpace c = false := by
      cases hp : isPhraseSpace c with
      | false => rfl
      | true => rw [isGap_of_isPhraseSpace hp] at hc; cases hc
    simp [lexemeLength?, singleLength?, hp] at h
  | some n =>
    obtain ⟨m, rfl⟩ := Nat.exists_eq_add_one_of_ne_zero (Nat.ne_of_gt (lexemeLength?_takes h).1)
    exact ⟨m, rfl⟩

/-! ## Lines -/

theorem scanFrom_skip (n offset : Nat) (cs : List Char) :
    ∃ behind, scanFrom n offset cs = scanFrom 0 behind (cs.drop n) := by
  induction n generalizing offset cs with
  | zero => exact ⟨offset, rfl⟩
  | succ n ih =>
    cases cs with
    | nil => exact ⟨offset, rfl⟩
    | cons c cs => exact ih _ cs

theorem scanFrom_cut (offset : Nat) (cs : List Char) :
    ∃ ps, Cut isGap cs ps ∧ (scanFrom 0 offset cs).map (·.text) = ps.map normalise := by
  -- a lexeme is skipped in one go, so the induction is on the length of the rest
  induction hlen : cs.length using Nat.strongRecOn generalizing offset cs with
  | ind len ih =>
    cases cs with
    | nil => exact ⟨[], .nil, rfl⟩
    | cons c cs =>
      rw [scanFrom]
      cases hc : isGap c with
      | true =>
        obtain ⟨ps, hcut, hps⟩ := ih cs.length (by simp [← hlen]) (offset + c.utf8Size) cs rfl
        exact ⟨ps, .gap hc hcut, hps⟩
      | false =>
        obtain ⟨n, hn⟩ := lexemeLength?_some hc cs
        obtain ⟨behind, hskip⟩ := scanFrom_skip n (offset + c.utf8Size) cs
        obtain ⟨ps, hcut, hps⟩ := ih (cs.drop n).length
          (by simp only [← hlen, List.length_drop, List.length_cons]; omega) behind (cs.drop n) rfl
        rw [hn, if_neg (by decide)]
        dsimp only
        rw [hskip, List.map_cons, hps]
        exact ⟨_ :: ps, (lexemeLength?_takes hn).2.cut hcut, rfl⟩

theorem mem_of_mem_split {q : Char → Bool} {w : List Char} (hw : w ∈ split q cs) (hc : c ∈ w) :
    c ∈ cs := by
  induction cs generalizing w with
  | nil =>
    rw [split_nil, List.mem_singleton] at hw
    exact hw ▸ hc
  | cons d cs ih =>
    rw [split_cons] at hw
    split at hw
    · rcases List.mem_cons.1 hw with rfl | hw
      · cases hc
      · exact List.mem_cons_of_mem d (ih hw hc)
    · cases hs : split q cs with
      | nil => exact absurd hs (split_ne_nil q cs)
      | cons v vs =>
        rw [hs] at hw ih
        rcases List.mem_cons.1 hw with rfl | hw
        · rcases List.mem_cons.1 hc with rfl | hc
          · exact List.mem_cons_self
          · exact List.mem_cons_of_mem d (ih List.mem_cons_self hc)
        · exact List.mem_cons_of_mem d (ih (List.mem_cons_of_mem v hw) hc)

theorem normalise_plain {p : List Char} (h : Plain p) : Plain (normalise p).toList := by
  unfold normalise
  split
  · refine plain_intercalate (by decide) ?_
    intro t ht
    obtain ⟨w, hw, rfl⟩ := List.mem_map.1 ht
    rw [String.toList_ofList]
    exact h.of_subset fun c hc => mem_of_mem_split (List.mem_filter.1 hw).1 hc
  · rw [String.toList_ofList]
    exact h

theorem normalise_quote (p : List Char) : (normalise ('"' :: p)).toList = '"' :: p := by
  simp [normalise]

end Lexeme

theorem tokenize_cut (line : String) :
    ∃ ps, Cut isGap line.toList ps ∧ tokenize line = ps.map Lexeme.normalise :=
  Lexeme.scanFrom_cut 0 line.toList

/-! ## Tokens -/

/-- A text of a kind that starts with a quote is a string. -/
theorem isString_of_quote {text : String} {p : List Char} (h : text.toList = '"' :: p)
    (hk : classify text ≠ .invalid) :
    classify text = .string ∧ Literal.isString text = true := by
  have notWord : ∀ word : String, word.toList.head? ≠ some '"' → text ≠ word := by
    rintro word hw rfl
    rw [h] at hw
    exact hw rfl
  have hc := classify_classified text
  generalize classify text = kind at hc hk ⊢
  cases hc with
  | keyword hm =>
    have : ∀ p ∈ Vocabulary.keywords, p.1.toList.head? ≠ some '"' := by decide +kernel
    exact absurd rfl (notWord text (this (text, kind) hm))
  | typeName hn =>
    obtain ⟨t, ht⟩ := Option.isSome_iff_exists.1 hn
    have : ∀ t ∈ ValueType.declared, t.name.toList.head? ≠ some '"' := by decide +kernel
    have hname : t.name = text := by simpa using List.find?_some ht
    exact absurd hname.symm (notWord _ (this t (List.mem_of_find?_eq_some ht)))
  | relational hr =>
    obtain ⟨op, hop⟩ := Option.isSome_iff_exists.1 hr
    have : ∀ p ∈ Vocabulary.comparisons, p.1.toList.head? ≠ some '"' := by decide +kernel
    exact absurd rfl (notWord text (this (text, op) (mem_of_lookup hop)))
  | number hn => simp [Literal.isNumber, Literal.numberShape?, Literal.unsigned, h] at hn
  | string hs => exact ⟨rfl, hs⟩
  | identifier hi => simp [Literal.isIdentifier, isWordStart, h] at hi
  | invalid => exact absurd rfl hk

/-- A token as it stands in a line: a string is a literal, and any other token is free of quotes. -/
structure Token.Sound (t : Token) : Prop where
  valid : t.Valid
  shape : (t.kind = .string ∧ ∃ body, Plain body ∧ t.text.toList = '"' :: (body ++ ['"'])) ∨
    (t.kind ≠ .string ∧ Plain t.text.toList)

theorem Token.sound_of_ofLine {line : String} {ts : List Token} (h : ofLine line = .ok ts) :
    ∀ t ∈ ts, t.Sound := by
  intro t ht
  obtain ⟨hkind, hinvalid⟩ := valid_of_ofLine h t ht
  refine ⟨⟨hkind, hinvalid⟩, ?_⟩
  rw [hkind] at hinvalid ⊢
  have hmem : t.text ∈ tokenize (trim line) := by
    rw [tokenize, ← (mapM_ofLexeme_ok h).1]
    exact List.mem_map.2 ⟨t, ht, rfl⟩
  obtain ⟨ps, hcut, hps⟩ := tokenize_cut (trim line)
  rw [hps] at hmem
  obtain ⟨p, hp, htext⟩ := List.mem_map.1 hmem
  rcases hcut.piece p hp with hw | ⟨r, hr, rfl⟩
  · cases hw with
    | plain hplain =>
      have hplain := htext ▸ Lexeme.normalise_plain hplain
      refine .inr ⟨fun hs => ?_, hplain⟩
      have hc := classify_classified t.text
      rw [hs] at hc
      cases hc with
      | keyword hm => exact absurd hm (by simp [Vocabulary.keywords])
      | string hstring =>
        unfold Literal.isString at hstring
        split at hstring
        · rename_i hq
          rw [hq] at hplain
          exact (plain_cons.1 hplain).1 rfl
        · cases hstring
    | @literal body hb =>
      have hlit := htext ▸ Lexeme.normalise_quote (body ++ ['"'])
      exact .inl ⟨(isString_of_quote hlit hinvalid).1, body, hb, hlit⟩
  · -- a string that is left open ends in no quote
    have hlit := htext ▸ Lexeme.normalise_quote r
    have hstring := (isString_of_quote hlit hinvalid).2
    simp only [Literal.isString, hlit, Bool.and_eq_true, beq_iff_eq] at hstring
    exact absurd (List.mem_of_getLast? hstring.1) hr

end Courtesy
