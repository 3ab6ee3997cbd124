import Courtesy.Proofs.Blames
import Courtesy.Proofs.Coverage
import Courtesy.Proofs.Modularity
import Courtesy.Proofs.Rendering

/-!
# The token under a caret

The column of a faulty statement is not that of a token. It is looked for: it is where the text that
is blamed stands in the line, at a place that no word character touches if there is one
(`Location.offset?_some`). The text starts with no white space (`Statement.Blamed.flush`), so the
place lies in a lexeme; and a lexeme that starts with a word character is not touched by another one
(`Lexeme.Covers.untouched`), so a text that is found inside of a word is no lexeme of the line
(`Lexeme.Covers.caret`). Nothing keeps the place out of string literals and phrases: see
`caret_inside_literal`. Main statement: `caret_in_token`.
-/

namespace Courtesy

open Statement Text

/-! ## Occurrences that no word touches -/

namespace Location

open Lexeme (width)

/-- No word character stands right in front of a place and none right behind it. -/
def Untouched (front back : List Char) : Prop :=
  (∀ c ∈ front.getLast?, isWordChar c = false) ∧ freeAfter back = true

theorem getLast?_cons_free_iff {c : Char} {front : List Char} :
    (∀ d ∈ (c :: front).getLast?, isWordChar d = false) ↔
      (front = [] → isWordChar c = false) ∧ ∀ d ∈ front.getLast?, isWordChar d = false := by
  cases front with
  | nil => simp
  | cons e front => simp [List.getLast?_cons_cons]

theorem wholeFrom_some {token cs : List Char} {inWord : Bool} {offset k : Nat}
    (h : wholeFrom token inWord offset cs = some k) :
    ∃ front back, cs = front ++ (token ++ back) ∧ k = offset + width front ∧
      (front = [] → inWord = false) ∧ Untouched front back := by
  have hhere : ∀ {back : List Char}, freeAfter back = true → Untouched [] back := by
    intro back hback
    refine ⟨fun c hc => ?_, hback⟩
    cases hc
  induction cs generalizing inWord offset with
  | nil =>
    rw [wholeFrom] at h
    split at h
    · rename_i hempty
      cases h
      rw [Bool.and_eq_true, Bool.not_eq_true'] at hempty
      exact ⟨[], [], by simpa using hempty.1, rfl, fun _ => hempty.2, hhere rfl⟩
    · cases h
  | cons c cs ih =>
    rw [wholeFrom] at h
    split at h
    · rename_i hwhole
      cases h
      rw [Bool.and_eq_true, Bool.and_eq_true, Bool.not_eq_true'] at hwhole
      obtain ⟨⟨hfree, hprefix⟩, hback⟩ := hwhole
      obtain ⟨back, hcs⟩ := List.isPrefixOf_iff_prefix.1 hprefix
      rw [← hcs, List.drop_left] at hback
      exact ⟨[], back, hcs.symm, rfl, fun _ => hfree, hhere hback⟩
    · obtain ⟨front, back, rfl, rfl, hfirst, hfront, hback⟩ := ih h
      refine ⟨c :: front, back, rfl, ?_, fun hnil => absurd hnil (List.cons_ne_nil c front),
        getLast?_cons_free_iff.2 ⟨hfirst, hfront⟩, hback⟩
      rw [Lexeme.width_cons]
      omega

/-- An occurrence that no word touches is found, or one in front of it. -/
theorem exists_wholeFrom {token front back : List Char} (h : Untouched front back) {inWord : Bool}
    (hfirst : front = [] → inWord = false) (offset : Nat) :
    ∃ k ≤ offset + width front,
      wholeFrom token inWord offset (front ++ (token ++ back)) = some k := by
  obtain ⟨hfront, hback⟩ := h
  induction front generalizing inWord offset with
  | nil =>
    refine ⟨offset, Nat.le_add_right _ _, ?_⟩
    rw [List.nil_append, hfirst rfl]
    cases htext : token ++ back with
    | nil =>
      rw [(List.append_eq_nil_iff.1 htext).1]
      rfl
    | cons c cs =>
      have hprefix : token.isPrefixOf (c :: cs) = true := by
        rw [← htext]
        simp
      have hfree : freeAfter ((c :: cs).drop token.length) = true := by
        rwa [← htext, List.drop_left]
      rw [wholeFrom, hprefix, hfree]
      rfl
  | cons c front ih =>
    rw [List.cons_append, wholeFrom, Lexeme.width_cons]
    split
    · exact ⟨offset, Nat.le_add_right _ _, rfl⟩
    · obtain ⟨hc, hfront⟩ := getLast?_cons_free_iff.1 hfront
      obtain ⟨k, hle, hk⟩ := ih hc (offset + c.utf8Size) hfront
      exact ⟨k, by omega, hk⟩

/-- The place that is found is one that no word touches, or there is no such place. -/
theorem offset?_some {token line : String} {k : Nat} (h : offset? token line = some k) :
    ∃ front back, line.toList = front ++ (token.toList ++ back) ∧ k = width front ∧
      ((∀ c ∈ front.getLast?, isWordChar c = false) ∨
        ∀ front' back', line.toList = front' ++ (token.toList ++ back') →
          ¬ Untouched front' back') := by
  rw [offset?, orElse_eq_some] at h
  rcases h with h | ⟨hnone, h⟩
  · obtain ⟨front, back, hline, hk, -, hfront, -⟩ := wholeFrom_some h
    exact ⟨front, back, hline, hk.trans (Nat.zero_add _), .inl hfront⟩
  · obtain ⟨n, rfl, front, back, hline, rfl⟩ := stands_of_firstFrom h
    refine ⟨front, back, hline, Nat.zero_add _, .inr fun front' back' hline' huntouched => ?_⟩
    obtain ⟨k, -, hk⟩ : ∃ k ≤ 0 + width front',
        wholeFrom token.toList false 0 (front' ++ (token.toList ++ back')) = some k :=
      exists_wholeFrom huntouched (fun _ => rfl) 0
    rw [← hline', hnone] at hk
    cases hk

end Location

/-! ## Words in lexemes -/

namespace Lexeme

open Location

theorem isWordChar_of_isMark {c : Char} (h : isMark c = true) : isWordChar c = false := by
  simp only [isMark, Bool.or_eq_true, beq_iff_eq] at h
  rcases h with (((rfl | rfl) | rfl) | rfl) | rfl <;> rfl

theorem isWordChar_of_isSymbol {c : Char} (h : isSymbol c = true) : isWordChar c = false := by
  simp only [isSymbol, Bool.and_eq_true, Bool.not_eq_true'] at h
  exact h.2

/-- A lexeme without strings ends where the word ends that it starts or ends with. -/
theorem Ordinary.atWordEnd_of_edge {c d : Char} {cs rest : List Char}
    (h : Ordinary c (cs ++ rest) (cs.length + 1)) (hd : d = c ∨ d ∈ (c :: cs).getLast?)
    (hword : isWordChar d = true) : Lexeme.atWordEnd rest = true := by
  have hmem : d ∈ c :: cs := by
    rcases hd with rfl | hd
    · exact List.mem_cons_self
    · exact List.mem_of_getLast? hd
  have hend :
      ∀ n, n = cs.length + 1 → Ordinary c (cs ++ rest) n → Lexeme.atWordEnd rest = true := by
    intro n hn h
    cases h with
    | word _ =>
      have hdrop := atWordEnd_drop (cs ++ rest)
      rwa [Nat.succ.inj hn, List.drop_left] at hdrop
    | ragged _ _ =>
      have hdrop := atWordEnd_drop (cs ++ rest)
      rwa [Nat.succ.inj hn, List.drop_left] at hdrop
    | number _ h =>
      have hdrop := (numberLength?_some h).2.1
      rwa [hn, List.drop_succ_cons, List.drop_left] at hdrop
    | mark hc =>
      rw [List.eq_nil_of_length_eq_zero (Nat.succ.inj hn).symm, List.mem_singleton] at hmem
      rw [hmem, isWordChar_of_isMark hc] at hword
      cases hword
    | symbols hc =>
      -- all of the lexeme are symbols, so none of it is part of a word
      have hcs : (cs ++ rest).takeWhile isSymbol = cs := by
        have hprefix := List.takeWhile_prefix isSymbol (l := cs ++ rest)
        rw [List.prefix_iff_eq_take.1 hprefix, Nat.succ.inj hn, List.take_left]
      have hsymbol : isSymbol d = true := by
        rcases List.mem_cons.1 hmem with rfl | hd
        · exact hc
        · rw [← hcs] at hd
          exact of_mem_takeWhile hd
      rw [isWordChar_of_isSymbol hsymbol] at hword
      cases hword
  exact hend _ rfl h

/-- A lexeme that starts or ends with a word character ends where the word ends. -/
theorem Piece.atWordEnd_of_edge {p rest : List Char} (h : Piece p rest) {d : Char}
    (hd : d ∈ p.head? ∨ d ∈ p.getLast?) (hword : isWordChar d = true) :
    Lexeme.atWordEnd rest = true := by
  cases h with
  | phrase _ _ hrest => exact hrest
  | literal _ hp =>
    have hquote : d = '"' := by
      rw [hp] at hd
      rcases hd with hd | hd
      · exact (Option.some.inj hd).symm
      · rw [← List.cons_append, List.getLast?_concat] at hd
        exact (Option.some.inj hd).symm
    rw [hquote] at hword
    cases hword
  | opened _ _ hrest => rw [hrest]; rfl
  | @ordinary c cs hc hp _ h =>
    rw [hp] at hd
    refine h.atWordEnd_of_edge ?_ hword
    rcases hd with hd | hd
    · exact .inl (Option.some.inj hd).symm
    · exact .inr hd

/-! ## Lexemes side by side -/

section

variable {line : String} {ls : List Lexeme} {spans : List (Span line)} (h : Covers line 0 ls spans)

include h

theorem Covers.start_lt_stop {s : Span line} (hs : s ∈ spans) : s.start < s.stop :=
  (readFrom_ofSpan (h.pieces s hs)).nonempty

/-- Of two lexemes the one that starts first ends before the other starts. -/
theorem Covers.stop_le_start {s t : Span line} (hs : s ∈ spans) (ht : t ∈ spans)
    (hlt : s.start < t.start) : s.stop ≤ t.start := by
  obtain ⟨i, hi, rfl⟩ := List.getElem_of_mem hs
  obtain ⟨j, hj, rfl⟩ := List.getElem_of_mem ht
  rcases Nat.lt_trichotomy i j with hij | rfl | hji
  · exact List.pairwise_iff_getElem.1 h.apart i j hi hj hij
  · exact absurd hlt (Nat.lt_irrefl _)
  · have hle := List.pairwise_iff_getElem.1 h.apart j i hj hi hji
    have hne := h.start_lt_stop ht
    omega

/-- What stands right in front of a lexeme is white space, or the end of another lexeme. -/
theorem Covers.adjacent {u : Span line} (hu : u ∈ spans) {e : Char}
    (he : e ∈ u.front.toList.getLast?) (hgap : isGap e = false) :
    ∃ v ∈ spans, e ∈ v.text.toList.getLast? ∧
      v.back.toList = u.text.toList ++ u.back.toList := by
  obtain ⟨front, hfront⟩ := List.getLast?_eq_some_iff.1 he
  have hline : line.toList = front ++ e :: (u.text.toList ++ u.back.toList) := by
    rw [u.toList_eq, hfront, List.append_assoc]
    rfl
  obtain ⟨v, hv, hholds⟩ := h.solid front e _ hline (Nat.zero_le _) hgap
  obtain ⟨xs, ys, hxs, htext⟩ := exists_inside hline hholds
  have hstart : u.start = width front + e.utf8Size := by
    rw [Span.start, ← width_toList, hfront, width_append, width_cons, width_nil, Nat.add_zero]
  have hstop := stop_eq_of_inside hxs htext
  have hpos := e.utf8Size_pos
  have hfirst := hholds.1
  have hle := h.stop_le_start hv hu (by omega)
  -- so nothing of the other lexeme stands behind the character
  have hnil : ys = [] := by
    cases ys with
    | nil => rfl
    | cons y ys =>
      have hwidth := width_pos (List.cons_ne_nil y ys)
      omega
  subst hnil
  refine ⟨v, hv, ?_, ?_⟩
  · rw [htext, List.getLast?_concat]
    rfl
  · have hcut := v.toList_eq.symm.trans hline
    rw [htext, hxs] at hcut
    simpa using hcut

/-- No word character touches a lexeme that starts with one. -/
theorem Covers.untouched {u : Span line} (hu : u ∈ spans) {c : Char}
    (hc : c ∈ u.text.toList.head?) (hword : isWordChar c = true) :
    Untouched u.front.toList u.back.toList := by
  refine ⟨fun e he => ?_, (h.pieces u hu).atWordEnd_of_edge (.inl hc) hword⟩
  rw [Bool.eq_false_iff]
  intro heword
  obtain ⟨v, hv, hlast, hback⟩ := h.adjacent hu he (isGap_of_isWordChar heword)
  have hend := (h.pieces v hv).atWordEnd_of_edge (.inr hlast) heword
  rw [hback, atWordEnd_iff] at hend
  have hfree := hend c (by rw [List.head?_append, Option.mem_def.1 hc]; rfl)
  rw [hword] at hfree
  cases hfree

/-- A text that starts with no white space is found in a lexeme. Where it is not found at the start
of the lexeme, the lexeme is more than a word, or the text is no lexeme of the line. -/
theorem Covers.caret {token : String} {c : Char} {cs : List Char} (htoken : token.toList = c :: cs)
    (hc : isGap c = false) {k : Nat} (hk : offset? token line = some k) :
    ∃ s ∈ spans, s.Holds k ∧ (k = s.start ∨ (∃ d ∈ s.text.toList, isWordChar d = false) ∨
      ∀ u ∈ spans, u.text ≠ token) := by
  obtain ⟨front, back, hline, rfl, hbest⟩ := offset?_some hk
  have hcut : line.toList = front ++ c :: (cs ++ back) := by
    rw [hline, htoken]
    rfl
  obtain ⟨s, hs, hholds⟩ := h.solid front c _ hcut (Nat.zero_le _) hc
  obtain ⟨xs, ys, hfront, htext⟩ := exists_inside hcut hholds
  refine ⟨s, hs, hholds, ?_⟩
  by_cases hother : ∃ d ∈ s.text.toList, isWordChar d = false
  · exact .inr (.inl hother)
  · have hwords : ∀ d ∈ xs ++ c :: ys, isWordChar d = true := by
      intro d hd
      cases hword : isWordChar d with
      | true => rfl
      | false => exact absurd ⟨d, htext ▸ hd, hword⟩ hother
    cases hlast : xs.getLast? with
    | none =>
      left
      rw [hfront, List.getLast?_eq_none_iff.1 hlast, List.append_nil, width_toList]
      rfl
    | some e =>
      -- a word character stands in front of the place, so no better place was found
      refine .inr (.inr fun u hu hutoken => ?_)
      have heword := hwords e (List.mem_append_left _ (List.mem_of_getLast? hlast))
      rcases hbest with hfree | hnone
      · rw [hfree e (by rw [hfront, List.getLast?_append, hlast]; rfl)] at heword
        cases heword
      · refine hnone u.front.toList u.back.toList ?_
          (h.untouched hu (c := c) ?_ (hwords c (by simp)))
        · rw [← hutoken]
          exact u.toList_eq
        · rw [hutoken, htoken]
          rfl

end

end Lexeme

/-! ## The head of what is blamed -/

/-- A text that is empty or starts with no white space. -/
def Text.Flush (s : String) : Prop := ∀ c ∈ s.toList.head?, isGap c = false

theorem Lexeme.Scans.heads {cs : List Char} {ps : List (List Char)} (h : Scans cs ps) :
    ∀ p ∈ ps, ∃ c more, (normalise p).toList = c :: more ∧ isGap c = false := by
  induction h with
  | nil => exact List.forall_mem_nil _
  | gap _ _ ih => exact ih
  | @piece p rest ps hhead hlen _ ih =>
    refine List.forall_mem_cons.2 ⟨?_, ih⟩
    have hpiece := piece_of_length hhead hlen
    have hgap := hpiece.head_normalise hhead
    cases htext : (normalise p).toList with
    | nil =>
      -- a phrase keeps its words, and all else is kept as it stands
      by_cases hphrase : ∃ ws ∈ phrases, Spells ws p
      · obtain ⟨ws, -, hp⟩ := hphrase
        exact absurd htext hp.normalise.ne_nil
      · rw [hpiece.verbatim fun ws hws hp => hphrase ⟨ws, hws, hp⟩] at htext
        exact absurd htext hpiece.ne_nil
    | cons c more =>
      rw [htext] at hgap
      exact ⟨c, more, rfl, hgap c rfl⟩

theorem head_of_mem_tokenize {line w : String} (h : w ∈ tokenize line) :
    ∃ c more, w.toList = c :: more ∧ isGap c = false := by
  obtain ⟨ps, hps⟩ := Lexeme.exists_scans line.toList
  rw [tokenize, Lexeme.scan, hps.texts 0] at h
  obtain ⟨p, hp, rfl⟩ := List.mem_map.1 h
  exact hps.heads p hp

theorem flush_of_mem_tokenize {line w : String} (h : w ∈ tokenize line) : Flush w := by
  obtain ⟨c, more, hw, hc⟩ := head_of_mem_tokenize h
  rw [Flush, hw]
  rintro d ⟨⟩
  exact hc

theorem flush_spaced {line : String} {ws : List String} (h : ws ⊆ tokenize line) :
    Flush (spaced ws) := by
  cases ws with
  | nil =>
    rintro c ⟨⟩
  | cons w ws =>
    obtain ⟨c, more, hw, hc⟩ := head_of_mem_tokenize (h List.mem_cons_self)
    rw [Flush, toList_spaced, hw]
    rintro d ⟨⟩
    exact hc

/-- Vertical tabs stand in string literals only. -/
theorem Token.Sound.tab {t : Token} (h : t.Sound) : '\x0b' ∉ bare t.text.toList := by
  rcases h.shape with ⟨-, body, hb, htext⟩ | ⟨hstring, hplain⟩
  · have hbare := bare_literal plain_nil hb []
    rw [htext]
    simp only [List.nil_append] at hbare
    rw [hbare, bare_plain plain_nil]
    exact List.not_mem_nil
  · have hc := classify_classified t.text
    rw [← h.valid.1] at hc
    rw [bare_plain hplain, ← List.contains_iff_mem, Bool.not_eq_true]
    generalize t.text = text at hc
    generalize ht : t.kind = kind at hc hstring
    cases hc with
    | keyword hm =>
      have hall : ∀ p ∈ Vocabulary.keywords, p.1.toList.contains '\x0b' = false := by decide +kernel
      exact hall _ hm
    | typeName hn =>
      obtain ⟨type, htype⟩ := Option.isSome_iff_exists.1 hn
      have hall :
          ∀ t ∈ ValueType.declared, t.name.toList.contains '\x0b' = false := by decide +kernel
      have hname : type.name = text := by simpa using List.find?_some htype
      rw [← hname]
      exact hall type (List.mem_of_find?_eq_some htype)
    | relational hr =>
      obtain ⟨op, hop⟩ := Option.isSome_iff_exists.1 hr
      have hall :
          ∀ p ∈ Vocabulary.comparisons, p.1.toList.contains '\x0b' = false := by decide +kernel
      exact hall (text, op) (mem_of_lookup hop)
    | number hn =>
      rw [Bool.eq_false_iff]
      intro hmem
      rcases Expression.chars_of_isNumber hn '\x0b' (List.contains_iff_mem.1 hmem) with hd | hd | hd
        <;> cases hd
    | string _ => exact absurd rfl hstring
    | identifier hi =>
      rw [Bool.eq_false_iff]
      intro hmem
      cases Literal.isWordChar_of_isIdentifier hi '\x0b' (List.contains_iff_mem.1 hmem)
    | invalid => exact absurd ht h.valid.2

namespace Expression

theorem atomLength?_space {c : Char} (hc : isPhraseSpace c = true) (cs : List Char) :
    atomLength? (c :: cs) = none := by
  simp only [isPhraseSpace, Bool.or_eq_true, beq_iff_eq] at hc
  rcases hc with (((rfl | rfl) | rfl) | rfl) | rfl <;> rfl

theorem head_of_mem_atomsFrom {p : List Char} {n : Nat} {cs : List Char}
    (h : p ∈ atomsFrom n cs) : ∀ c ∈ p.head?, isPhraseSpace c = false := by
  fun_induction atomsFrom n cs with
  | case1 => cases h
  | case2 _ _ _ ih => exact ih h
  | case3 c cs m hm ih =>
    rcases List.mem_cons.1 h with rfl | h
    · rintro d ⟨⟩
      cases hd : isPhraseSpace c with
      | true =>
        rw [atomLength?_space hd] at hm
        cases hm
      | false => rfl
    · exact ih h
  | case4 _ _ _ ih => exact ih h

/-- The atoms of tokens start with no white space. -/
theorem flush_of_mem_cut {part : List Token} (hpart : ∀ t ∈ part, t.Sound) {a : String}
    (ha : a ∈ cut (Token.join part)) : Flush a := by
  have hclosed : Closed (Token.join part).toList :=
    closed_intercalate (by decide) (Token.closed_join hpart)
  intro c hc
  have hspace := head_of_mem_atomsFrom (mem_cut ha) c hc
  rw [isGap, hspace, Bool.false_or, beq_eq_false_iff_ne]
  rintro rfl
  have hwhole := whole_of_mem_cut hclosed ha
  generalize htext : a.toList = text at hwhole
  cases hwhole with
  | plain hp =>
    have hatom : '\x0b' ∈ bare a.toList := by
      rw [htext, bare_plain hp, ← htext]
      exact List.mem_of_head? hc
    have hjoin := (exists_atom_iff_mem_bare hclosed hspace).1 ⟨a, ha, hatom⟩
    obtain ⟨t, ht, htab⟩ := (Token.mem_bare_join_iff hpart (by decide)).1 hjoin
    exact (hpart t ht).tab htab
  | literal _ =>
    rw [htext] at hc
    cases hc

end Expression

/-- What a statement of a line can be blamed for starts with no white space. -/
theorem Statement.Blamed.flush {line : String} {tokens : List Token}
    (hl : Token.ofLine line = .ok tokens) {b : String} (h : Blamed tokens b) : Flush b := by
  have hsound := Token.sound_of_ofLine hl
  cases h with
  | nothing => rintro c ⟨⟩
  | token ht =>
    have hmem := List.mem_map_of_mem (f := Token.text) ht
    rw [← Token.texts, (Token.mapM_ofLexeme_ok hl).1] at hmem
    exact flush_of_mem_tokenize hmem
  | value hpart hb =>
    cases hb with
    | nothing => rintro c ⟨⟩
    | atom ha => exact Expression.flush_of_mem_cut (fun t ht => hsound t (hpart ht)) ha
    | negated _ =>
      rw [Flush, String.toList_append]
      rintro c ⟨⟩
      rfl
    | opening =>
      rintro c ⟨⟩
      rfl
  | condition _ hws => exact flush_spaced hws
  | _ =>
    rintro c ⟨⟩
    rfl

/-! ## Tokens and their parts -/

/-- The tokens of a line are read from parts of it, in order. -/
structure Token.ReadFrom {line : String} (tokens : List Token) (parts : List (Span line)) :
    Prop where
  texts : tokens.map (·.text) = parts.map (Lexeme.normalise ·.text.toList)
  columns : tokens.map (·.column) = parts.map (·.start + 1)

theorem Token.columns_mapM_ofLexeme {ls : List Lexeme} {ts : List Token}
    (h : ls.mapM ofLexeme = .ok ts) : ts.map (·.column) = ls.map (·.column) := by
  obtain ⟨hlength, hall⟩ := mapM_ok h
  refine List.ext_getElem? fun i => ?_
  rw [List.getElem?_map, List.getElem?_map]
  cases hl : ls[i]? with
  | none =>
    rw [List.getElem?_eq_none (by rw [hlength]; exact List.getElem?_eq_none_iff.1 hl)]
    rfl
  | some l =>
    obtain ⟨t, ht, hlexeme⟩ := hall i l hl
    rw [ht]
    unfold ofLexeme at hlexeme
    dsimp only at hlexeme
    split at hlexeme
    · cases hlexeme
    · cases hlexeme
      rfl

theorem Token.readFrom_of_covers {line : String} (htrim : trim line = line) {tokens : List Token}
    (hl : ofLine line = .ok tokens) {parts : List (Span line)}
    (h : Lexeme.Covers line 0 (Lexeme.scan line) parts) : ReadFrom tokens parts := by
  rw [ofLine, htrim] at hl
  constructor
  · have htexts := (mapM_ofLexeme_ok hl).1
    rw [texts, h.lexemes, List.map_map] at htexts
    exact htexts
  · have hcolumns := columns_mapM_ofLexeme hl
    rw [h.lexemes, List.map_map] at hcolumns
    exact hcolumns

/-! ## Where a diagnostic points in its line -/

/-- The caret of a diagnostic stands in a token of its line: at its start, or where the text that a
statement is blamed for stands inside of it. The latter happens only in tokens that are more than a
word, or if the text is not written as a token in the line. -/
structure Diagnostic.InToken (d : Diagnostic) (line : String) (tokens : List Token)
    (parts : List (Span line)) (s : Span line) : Prop where
  mem : s ∈ parts
  holds : s.Holds (d.column - 1).toNat
  start : d.column = (s.start + 1 : Nat) ∨ ∃ fault : Fault, d.message = fault.message ∧
    Blamed tokens fault.blame ∧
    (∃ place : Span line, place.text = fault.blame ∧ d.column = (place.start + 1 : Nat)) ∧
    ((∃ c ∈ s.text.toList, isWordChar c = false) ∨ ∀ u ∈ parts, u.text ≠ fault.blame)

theorem Location.exists_of_column_pos {line token : String} (h : 0 < column line token) :
    token ≠ "" ∧ ∃ k, offset? token line = some k ∧ column line token = k + 1 := by
  unfold column at h ⊢
  split at h
  · cases h
  · rename_i hempty
    rw [if_neg hempty]
    refine ⟨fun hnil => hempty (beq_iff_eq.2 hnil), ?_⟩
    cases hk : offset? token line with
    | none =>
      rw [hk] at h
      cases h
    | some k => exact ⟨k, rfl, rfl⟩

theorem Location.exists_span {line token : String} {k : Nat} (h : offset? token line = some k) :
    ∃ place : Span line, place.text = token ∧ place.start = k := by
  obtain ⟨front, back, hline, rfl⟩ := stands_of_offset? h
  have hcut : line = String.ofList front ++ (token ++ String.ofList back) := by
    rw [← String.toList_inj, hline]
    simp
  exact ⟨⟨String.ofList front, token, String.ofList back, hcut⟩, rfl, rfl⟩

namespace Step

variable {st : State} {text : String}

theorem inToken_perform (hline : st.lines[st.line]? = some text) (htrim : trim text = text) :
    ∀ d ∈ Event.diagnostics (perform st text).1.events, d.category ≠ .lexical → 0 < d.column →
      ∃ tokens parts s, Token.ofLine text = .ok tokens ∧ Token.ReadFrom tokens parts ∧
        d.InToken text tokens parts s := by
  obtain ⟨parts, hparts⟩ := Lexeme.exists_covers text
  unfold perform
  split
  · intro d hd hlexical
    rw [List.mem_singleton.1 hd] at hlexical
    exact absurd rfl hlexical
  · intro d hd
    cases hd
  · rename_i first rest hl
    have hread := Token.readFrom_of_covers htrim hl hparts
    dsimp only
    split
    · -- a command that is not known is told at its first token
      intro d hd _ _
      rw [List.mem_singleton.1 hd]
      have hcolumns := hread.columns
      cases parts with
      | nil => cases hcolumns
      | cons s parts =>
        have hfirst : first.column = s.start + 1 := (List.cons.inj hcolumns).1
        refine ⟨_, _, s, hl, hread, List.mem_cons_self, ?_, .inl (congrArg Int.ofNat hfirst)⟩
        have hindex : ((first.column : Int) - 1).toNat = s.start := by omega
        rw [hindex]
        exact ⟨Nat.le_refl _, hparts.start_lt_stop List.mem_cons_self⟩
    · rename_i fault hperform
      intro d hd _ hcolumn
      rw [List.mem_singleton.1 hd, fault.diagnostic_eq hline] at hcolumn ⊢
      have hblamed := perform_blames hperform
      obtain ⟨hne, k, hk, hfound⟩ := Location.exists_of_column_pos (Int.ofNat_lt.1 hcolumn)
      rw [hfound]
      obtain ⟨c, cs, hblame⟩ := List.exists_cons_of_ne_nil fun hnil =>
        hne (String.toList_eq_nil_iff.1 hnil)
      have hc : isGap c = false := hblamed.flush hl c (by rw [hblame]; rfl)
      obtain ⟨s, hs, hholds, hcase⟩ := hparts.caret hblame hc hk
      have hindex : (((k + 1 : Nat) : Int) - 1).toNat = k := by omega
      refine ⟨_, parts, s, hl, hread, hs, hindex.symm ▸ hholds, ?_⟩
      rcases hcase with rfl | hinside
      · exact .inl rfl
      · obtain ⟨place, hplace, rfl⟩ := Location.exists_span hk
        exact .inr ⟨fault, rfl, hblamed, ⟨place, hplace, rfl⟩, hinside⟩
    · intro d hd
      cases hd

theorem inToken_ofLine (hline : st.lines[st.line]? = some text) (htrim : trim text = text)
    (hstatement : text ≠ "\x7d") :
    ∀ d ∈ Event.diagnostics (ofLine st text).events, d.category ≠ .lexical → 0 < d.column →
      ∃ tokens parts s, Token.ofLine text = .ok tokens ∧ Token.ReadFrom tokens parts ∧
        d.InToken text tokens parts s := by
  have hmarked : (marked st text).lines[(marked st text).line]? = some text := by
    rwa [marked_lines, marked_line]
  rw [ofLine_statement hstatement]
  dsimp only
  exact inToken_perform hmarked htrim

end Step

/-- A diagnostic with a column that is told of a statement line, and is not lexical, points into a
token of this line, never at white space. It points at the start of the token, unless the text that
it blames stands inside of a token that is more than a word, or is not written as a token in
the line. -/
theorem caret_in_token (source text : String) (k : Nat) (d : Diagnostic)
    (hk : (solidLines (lines source))[k]? = some text) (hstatement : text ≠ "\x7d")
    (hd : d ∈ (translate source).diagnostics) (hline : d.line = (k + 1 : Nat))
    (hlexical : d.category ≠ .lexical) (hcolumn : 0 < d.column) :
    ∃ tokens parts s, Token.ofLine text = .ok tokens ∧ Token.ReadFrom tokens parts ∧
      d.InToken text tokens parts s := by
  have htrim : ∀ text ∈ solidLines (lines source), trim text = text :=
    fun text h => trim_of_mem_solidLines h
  have htold : (translate source).diagnostics = Run.placed (solidLines (lines source)) ++
      if (Run.before (solidLines (lines source)) (solidLines (lines source)).length).hasEntryPoint
      then [] else [Diagnostic.noEntryPoint] := Run.diagnostics_eq_placed _
  rw [htold] at hd
  rcases List.mem_append.1 hd with hd | hd
  · obtain ⟨k', text', hk', hpoints, htoldAt⟩ := Run.exists_toldAt htrim hd
    have hsame : k' = k := by
      have hnumber := hpoints.line
      omega
    subst hsame
    rw [hk] at hk'
    cases hk'
    rcases htoldAt with ⟨-, htoldAt⟩ | ⟨rfl, -⟩
    · obtain ⟨hlt, -⟩ := List.getElem?_eq_some_iff.1 hk
      have hread : (Run.before (solidLines (lines source)) k').lines[(Run.before
          (solidLines (lines source)) k').line]? = some text := by
        rwa [Run.before_lines, Run.before_line (Nat.le_of_lt hlt)]
      exact Step.inToken_ofLine hread (htrim text (List.mem_of_getElem? hk)) hstatement d htoldAt
        hlexical hcolumn
    · exact absurd hcolumn (Int.lt_irrefl 0)
  · split at hd
    · cases hd
    · rw [List.mem_singleton.1 hd] at hcolumn
      exact absurd hcolumn (Int.lt_irrefl 0)

/-- A name that is not declared is told at its column. -/
theorem caret_in_token_sample :
    let source := "please define function void main() \x7b\nthank you for printing x\n\x7d"
    let text := "thank you for printing x"
    ∃ d, d ∈ (translate source).diagnostics ∧ d.line = 2 ∧ d.category = .scope ∧ d.column = 24 ∧
      (solidLines (lines source))[1]? = some text ∧
      ∃ tokens parts s, Token.ofLine text = .ok tokens ∧ Token.ReadFrom tokens parts ∧
        d.InToken text tokens parts s := by
  intro source text
  let d : Diagnostic :=
    { category := .scope, message := "Variable 'x' does not exist", line := 2, column := 24 }
  obtain ⟨htold, hk⟩ : (translate source).diagnostics = [d] ∧
      (solidLines (lines source))[1]? = some text := by decide +kernel
  have hd : d ∈ (translate source).diagnostics := by
    rw [htold]
    exact List.mem_cons_self
  have hstatement : text ≠ "\x7d" := by decide
  exact ⟨d, hd, rfl, rfl, rfl, hk,
    caret_in_token source text 1 d hk hstatement hd rfl (by decide) (by decide)⟩

/-- The same name in a string literal: the caret stands inside of the literal, where no token
starts, and not at the name that is blamed. -/
theorem caret_inside_literal :
    let source :=
      "please define function void main() \x7b\nthank you for printing \"x\" add x\n\x7d"
    let text := "thank you for printing \"x\" add x"
    (solidLines (lines source))[1]? = some text ∧
      ((translate source).diagnostics.map fun d => (d.category, d.line, d.column)) =
        [(.scope, 2, 25)] ∧
      ((Token.ofLine text).toOption.map fun tokens => tokens.map (·.column)) =
        some [1, 24, 28, 32] := by
  decide +kernel

end Courtesy
