import Courtesy.Proofs.Phrases

/-!
# Scanning again what was scanned

The lexemes of a line, joined by single spaces, are the lexemes of the joined text
(`tokenize_spaced`). Parting two lexemes by a space cannot make a longer one of them: phrases are
the only lexemes that reach over white space, and where the joined text starts with a phrase the
line did too, since its gaps are white space of phrases. The vertical tab is the one gap that is
not, and lines that hold one are left out.
-/

namespace Courtesy

open Text

namespace Lexeme

/-! ## Lexemes and what follows them -/

/-- The lexeme `p` in front of the text `rest`. -/
inductive Piece (p rest : List Char) : Prop
  | phrase {ws : List (List Char)} (hws : ws ∈ phrases) (h : Spells ws p)
      (hrest : atWordEnd rest = true)
  | literal {body : List Char} (hb : Plain body) (hp : p = '"' :: (body ++ ['"']))
  | opened {body : List Char} (hb : Plain body) (hp : p = '"' :: body) (hrest : rest = [])
  | ordinary {c : Char} {cs : List Char} (hc : isStop c = false) (hp : p = c :: cs)
      (hno : anyPhraseLength? (p ++ rest) = none)
      (h : Ordinary c (cs ++ rest) (cs.length + 1))

variable {cs : List Char} {ps qs : List (List Char)}

theorem exists_piece {c : Char} (hc : isGap c = false) {n : Nat}
    (h : lexemeLength? (c :: cs) = some n) :
    ∃ p rest, c :: cs = p ++ rest ∧ n = p.length ∧ Piece p rest := by
  rw [lexemeLength?_eq, orElse_eq_some] at h
  rcases h with h | ⟨hno, h⟩
  · obtain ⟨ws, hws, p, rest, hcs, hn, hp, hrest⟩ := anyPhraseLength?_some h
    exact ⟨p, rest, hcs, hn, .phrase hws hp hrest⟩
  · by_cases hquote : c = '"'
    · subst hquote
      rw [ordinaryLength?_quote, orElse_eq_some] at h
      rcases h with h | ⟨hopen, h⟩
      · obtain ⟨body, rest, hb, hcs, rfl⟩ := closedString_literal h
        refine ⟨'"' :: (body ++ ['"']), rest, ?_, ?_, .literal hb rfl⟩
        · rw [hcs, List.cons_append, List.append_assoc]
          rfl
        · simp
      · cases h
        exact ⟨'"' :: cs, [], by simp, by simp,
          .opened (plain_of_closedString_none hopen) rfl rfl⟩
    · have hstop : isStop c = false := by
        rw [isGap, Bool.or_eq_false_iff] at hc
        simp [isStop, hc.1, hquote]
      have hord := ordinaryLength?_cases hstop h
      obtain ⟨n, rfl⟩ := Nat.exists_eq_add_one_of_ne_zero
        (Nat.ne_of_gt (lexemeLength?_takes (by rw [lexemeLength?_eq, hno]; exact h)).1)
      have hle := hord.le
      rw [List.length_cons, Nat.add_le_add_iff_right] at hle
      have hlen : (cs.take n).length = n := by
        rw [List.length_take]
        omega
      have hcut := List.take_append_drop n cs
      refine ⟨c :: cs.take n, cs.drop n, ?_, ?_, .ordinary hstop rfl ?_ ?_⟩
      · rw [List.cons_append, hcut]
      · rw [List.length_cons, hlen]
      · rwa [List.cons_append, hcut]
      · rwa [hcut, hlen]

theorem piece_of_length {p rest : List Char} (hhead : ∀ c ∈ p.head?, isGap c = false)
    (h : lexemeLength? (p ++ rest) = some p.length) : Piece p rest := by
  cases p with
  | nil => exact absurd (lexemeLength?_takes h).1 (Nat.lt_irrefl 0)
  | cons c p =>
    obtain ⟨q, rest', heq, hlen, hq⟩ := exists_piece (hhead c rfl) h
    obtain ⟨rfl, rfl⟩ := List.append_inj heq hlen
    exact hq

/-! ## Scans -/

/-- How a text falls into lexemes: gaps are passed over, and each piece is the lexeme at its
place. -/
inductive Scans : List Char → List (List Char) → Prop
  | nil : Scans [] []
  | gap {c : Char} {cs : List Char} {ps : List (List Char)} (hc : isGap c = true)
      (h : Scans cs ps) : Scans (c :: cs) ps
  | piece {p rest : List Char} {ps : List (List Char)} (hhead : ∀ c ∈ p.head?, isGap c = false)
      (hlen : lexemeLength? (p ++ rest) = some p.length) (h : Scans rest ps) :
      Scans (p ++ rest) (p :: ps)

theorem exists_scans (cs : List Char) : ∃ ps, Scans cs ps := by
  -- a lexeme is taken in one go, so the induction is on the length of the rest
  induction hlen : cs.length using Nat.strongRecOn generalizing cs with
  | ind len ih =>
    cases cs with
    | nil => exact ⟨[], .nil⟩
    | cons c cs =>
      cases hc : isGap c with
      | true =>
        obtain ⟨ps, hps⟩ := ih cs.length (by simp [← hlen]) cs rfl
        exact ⟨ps, .gap hc hps⟩
      | false =>
        obtain ⟨n, hn⟩ := lexemeLength?_some hc cs
        obtain ⟨p, rest, heq, hp, -⟩ := exists_piece hc hn
        obtain ⟨ps, hps⟩ := ih rest.length
          (by rw [← hlen, heq, List.length_append]; omega) rest rfl
        rw [heq, hp] at hn
        refine ⟨p :: ps, heq ▸ .piece ?_ hn hps⟩
        intro d hd
        cases p with
        | nil => cases hd
        | cons e p =>
          cases heq
          cases hd
          exact hc

theorem Scans.texts (h : Scans cs ps) (offset : Nat) :
    (scanFrom 0 offset cs).map (·.text) = ps.map normalise := by
  induction h generalizing offset with
  | nil => rfl
  | gap hc _ ih =>
    rw [scanFrom, if_pos hc]
    exact ih _
  | @piece p rest ps hhead hlen _ ih =>
    cases p with
    | nil => exact absurd (lexemeLength?_takes hlen).1 (Nat.lt_irrefl 0)
    | cons c p =>
      obtain ⟨behind, hskip⟩ := scanFrom_skip p.length (offset + c.utf8Size) (p ++ rest)
      rw [List.cons_append, List.length_cons] at hlen
      rw [List.cons_append, scanFrom, hhead c rfl, hlen]
      simp only [Bool.false_eq_true, if_false, List.map_cons]
      rw [hskip, List.drop_left, ih, List.take_succ_cons, List.take_left]

theorem Scans.eq_nil (h : Scans [] ps) : ps = [] := by
  generalize hcs : ([] : List Char) = cs at h
  cases h with
  | nil => rfl
  | gap _ _ => cases hcs
  | piece _ hlen _ =>
    rw [(List.append_eq_nil_iff.1 hcs.symm).1] at hlen
    exact absurd (lexemeLength?_takes hlen).1 (Nat.lt_irrefl 0)

/-- The last pieces of a text are the pieces of an end of it. -/
theorem Scans.of_append (h : Scans cs (ps ++ qs)) : ∃ rest, rest <:+ cs ∧ Scans rest qs := by
  generalize hall : ps ++ qs = all at h
  induction h generalizing ps with
  | nil =>
    obtain ⟨-, rfl⟩ := List.append_eq_nil_iff.1 hall
    exact ⟨[], List.suffix_rfl, .nil⟩
  | gap _ _ ih =>
    obtain ⟨rest, hsuffix, hscans⟩ := ih hall
    exact ⟨rest, hsuffix.trans (List.suffix_cons _ _), hscans⟩
  | @piece p tail all hhead hlen h ih =>
    cases ps with
    | nil =>
      rw [List.nil_append] at hall
      exact ⟨p ++ tail, List.suffix_rfl, hall ▸ .piece hhead hlen h⟩
    | cons q ps =>
      obtain ⟨rest, hsuffix, hscans⟩ := ih (List.cons.inj hall).2
      exact ⟨rest, hsuffix.trans (List.suffix_append _ _), hscans⟩

/-! ## Pieces that are scanned again -/

theorem Ordinary.piece {c : Char} {rest : List Char} (hc : isStop c = false)
    (h : Ordinary c (cs ++ rest) (cs.length + 1)) :
    (∀ d ∈ c :: cs, isStop d = false) ∧
      ((∀ d ∈ c :: cs, isWordChar d = true) → Lexeme.atWordEnd rest = true) ∧
      ordinaryLength? (c :: cs) = some (cs.length + 1) := by
  have hsolid := h.solid hc
  have hend := h.atWordEnd
  have halone := h.take
  rw [List.take_succ_cons, List.take_left] at hsolid hend halone
  rw [List.drop_succ_cons, List.drop_left] at hend
  exact ⟨hsolid, hend, halone⟩

/-- A character that is neither part of a word nor white space ends the run of words. -/
theorem wordRun_blocked {p : List Char} (hstop : ∀ d ∈ p, isStop d = false)
    (hword : ¬ ∀ d ∈ p, isWordChar d = true) (rest rest' : List Char) :
    wordRun (p ++ rest) = wordRun (p ++ rest') := by
  have hpieces : headPieces (p ++ rest) = headPieces (p ++ rest') := by
    induction p with
    | nil => exact absurd (List.forall_mem_nil _) hword
    | cons d p ih =>
      obtain ⟨hd, hp⟩ := List.forall_mem_cons.1 hstop
      by_cases hdword : isWordChar d = true
      · have hmore : ¬ ∀ e ∈ p, isWordChar e = true := fun hall =>
          hword (List.forall_mem_cons.2 ⟨hdword, hall⟩)
        simp only [List.cons_append, headPieces, hdword, if_true, ih hp hmore]
      · have hspace : isPhraseSpace d = false := by
          rw [isStop, Bool.or_eq_false_iff] at hd
          exact hd.1
        simp [headPieces, hdword, hspace]
  rw [wordRun, hpieces, wordRun]

theorem anyPhraseLength?_eq_none {cs' : List Char} (h : anyPhraseLength? cs = none)
    (hhead : ∀ c ∈ cs.head?, isPhraseSpace c = false) (hrun : wordRun cs' <+: wordRun cs) :
    anyPhraseLength? cs' = none := by
  cases h' : anyPhraseLength? cs' with
  | none => rfl
  | some n =>
    obtain ⟨ws, hws, p, rest, rfl, -, hp, hrest⟩ := anyPhraseLength?_some h'
    rw [wordRun_spells hp hrest] at hrun
    have hne : ws ≠ [] := by
      rintro rfl
      cases hp
    obtain ⟨q, rest', rfl, hq, hrest'⟩ :=
      spells_of_prefix hne hhead ((List.prefix_append _ _).trans hrun)
    rw [anyPhraseLength?_spells hws hq hrest'] at h
    cases h

theorem anyPhraseLength?_quote (cs : List Char) : anyPhraseLength? ('"' :: cs) = none := by
  cases h : anyPhraseLength? ('"' :: cs) with
  | none => rfl
  | some n =>
    obtain ⟨ws, -, p, rest, hcs, -, hp, -⟩ := anyPhraseLength?_some h
    obtain ⟨c, more, hc, hword⟩ := hp.head rest
    rw [← hcs] at hc
    cases hc
    cases hword

theorem lexemeLength?_literal {body : List Char} (hb : Plain body) (rest : List Char) :
    lexemeLength? ('"' :: (body ++ '"' :: rest)) = some (body.length + 2) := by
  rw [lexemeLength?_eq, anyPhraseLength?_quote, ordinaryLength?_quote,
    closedStringLength?_literal hb]
  rfl

theorem lexemeLength?_opened {body : List Char} (hb : Plain body) :
    lexemeLength? ('"' :: body) = some (body.length + 1) := by
  rw [lexemeLength?_eq, anyPhraseLength?_quote, ordinaryLength?_quote,
    closedStringLength?_opened hb]
  rfl

section

variable {p rest : List Char} (h : Piece p rest)

include h

/-- A lexeme that is no phrase is kept as it stands. -/
theorem Piece.verbatim (hno : ∀ ws ∈ phrases, ¬ Spells ws p) : (normalise p).toList = p := by
  cases h with
  | phrase hws hp _ => exact absurd hp (hno _ hws)
  | literal _ hp => rw [hp, normalise_quote]
  | opened _ hp _ => rw [hp, normalise_quote]
  | ordinary hc hp _ h =>
    rw [hp, normalise_solid (h.piece hc).1, String.toList_ofList]

theorem Piece.normalise_normalise : normalise (normalise p).toList = normalise p := by
  by_cases hphrase : ∃ ws ∈ phrases, Spells ws p
  · obtain ⟨ws, -, hp⟩ := hphrase
    exact hp.normalise_normalise
  · rw [h.verbatim fun ws hws hp => hphrase ⟨ws, hws, hp⟩]

theorem Piece.head_normalise (hhead : ∀ c ∈ p.head?, isGap c = false) :
    ∀ c ∈ (normalise p).toList.head?, isGap c = false := by
  by_cases hphrase : ∃ ws ∈ phrases, Spells ws p
  · obtain ⟨ws, -, hp⟩ := hphrase
    exact hp.normalise.head_solid
  · rwa [h.verbatim fun ws hws hp => hphrase ⟨ws, hws, hp⟩]

/-- Words at the head of the scanned text stood at the head of the text before. -/
theorem Piece.wordRun_prefix {rest' : List Char} (hrest' : atWordEnd rest' = true)
    (hrun : wordRun rest' <+: wordRun rest) :
    wordRun ((normalise p).toList ++ rest') <+: wordRun (p ++ rest) := by
  cases h with
  | phrase _ hp hrest =>
    rw [wordRun_spells hp.normalise hrest', wordRun_spells hp hrest]
    exact (List.prefix_append_right_inj _).2 hrun
  | literal _ hp =>
    have hnil : ∀ cs, wordRun ('"' :: cs) = [] := wordRun_other (by decide) (by decide)
    rw [hp, normalise_quote, List.cons_append, hnil]
    exact List.nil_prefix
  | opened _ hp _ =>
    have hnil : ∀ cs, wordRun ('"' :: cs) = [] := wordRun_other (by decide) (by decide)
    rw [hp, normalise_quote, List.cons_append, hnil]
    exact List.nil_prefix
  | ordinary hc hp _ h =>
    obtain ⟨hsolid, hend, -⟩ := h.piece hc
    rw [← hp] at hsolid hend
    rw [normalise_solid hsolid, String.toList_ofList]
    by_cases hword : ∀ d ∈ p, isWordChar d = true
    · have hp : IsWord p := ⟨by simp [hp], hword⟩
      rw [wordRun_word hp hrest', wordRun_word hp (hend hword)]
      exact (List.prefix_cons_inj p).2 hrun
    · have heq := wordRun_blocked hsolid hword rest' rest
      exact ⟨[], by rw [List.append_nil, heq]⟩

/-- In front of a space or at the end of a text a lexeme is the same lexeme. Only a string that is
left open would take in what follows. -/
theorem Piece.again {rest' : List Char} (hrest' : Stops rest') (hopen : rest = [] → rest' = [])
    (hrun : wordRun ((normalise p).toList ++ rest') <+: wordRun (p ++ rest)) :
    lexemeLength? ((normalise p).toList ++ rest') = some (normalise p).toList.length := by
  cases h with
  | phrase hws hp _ =>
    have hend : atWordEnd rest' = true := atWordEnd_append hrest'.breaks []
    rw [lexemeLength?_eq, anyPhraseLength?_spells hws hp.normalise hend]
    rfl
  | @literal body hb hp =>
    have htext : '"' :: (body ++ ['"']) ++ rest' = '"' :: (body ++ '"' :: rest') := by simp
    rw [hp, normalise_quote, htext, lexemeLength?_literal hb]
    simp
  | opened hb hp hrest =>
    rw [hp, normalise_quote, hopen hrest, List.append_nil, lexemeLength?_opened hb]
    rfl
  | @ordinary c cs hc hp hno h =>
    obtain ⟨hsolid, -, halone⟩ := h.piece hc
    have hhead : ∀ d ∈ (p ++ rest).head?, isPhraseSpace d = false := by
      rw [hp]
      rintro d ⟨⟩
      rw [isStop, Bool.or_eq_false_iff] at hc
      exact hc.1
    have hnone := anyPhraseLength?_eq_none hno hhead hrun
    rw [hp, normalise_solid hsolid, String.toList_ofList] at hnone ⊢
    rw [lexemeLength?_eq, hnone, ordinaryLength?_append hc hrest', halone]
    rfl

end

/-! ## Joined texts -/

theorem stops_joinedTail (ts : List String) : Stops (joinedTail ts) := by
  cases ts with
  | nil => rintro c ⟨⟩
  | cons t ts =>
    rintro c ⟨⟩
    rfl

theorem wordRun_joinedTail (ts : List String) :
    wordRun (joinedTail ts) = wordRun (spaced ts).toList := by
  cases ts with
  | nil => rfl
  | cons t ts => exact wordRun_space (by decide) _

theorem Scans.joinedTail {ts : List String} (h : Scans (spaced ts).toList ps) :
    Scans (joinedTail ts) ps := by
  cases ts with
  | nil => exact h
  | cons t ts => exact .gap (by decide) h

/-- The first pieces of a text, joined by spaces, are the pieces of the joined text, which has no
more words at its head. -/
theorem Scans.rescan (h : Scans cs ps) (hcs : '\x0b' ∉ cs) (hqs : qs <+: ps) :
    Scans (spaced (qs.map normalise)).toList (qs.map fun q => (normalise q).toList) ∧
      wordRun (spaced (qs.map normalise)).toList <+: wordRun cs := by
  induction h generalizing qs with
  | nil =>
    rw [List.prefix_nil.1 hqs]
    exact ⟨.nil, List.prefix_rfl⟩
  | @gap c cs ps hc h ih =>
    rw [List.mem_cons, not_or] at hcs
    have hspace : isPhraseSpace c = true := by
      rw [isGap, Bool.or_eq_true, beq_iff_eq] at hc
      exact hc.resolve_right (Ne.symm hcs.1)
    rw [wordRun_space hspace]
    exact ih hcs.2 hqs
  | @piece p rest ps hhead hlen h ih =>
    rw [List.mem_append, not_or] at hcs
    cases qs with
    | nil => exact ⟨.nil, List.nil_prefix⟩
    | cons q qs =>
      obtain ⟨rfl, hmore⟩ := List.cons_prefix_cons.1 hqs
      obtain ⟨hscans, hrun⟩ := ih hcs.2 hmore
      rw [← wordRun_joinedTail] at hrun
      have hpiece := piece_of_length hhead hlen
      have hstops := stops_joinedTail (qs.map normalise)
      have hopen : rest = [] → Text.joinedTail (qs.map normalise) = [] := by
        rintro rfl
        rw [h.eq_nil, List.prefix_nil] at hmore
        rw [hmore]
        rfl
      have hwords := hpiece.wordRun_prefix (atWordEnd_append hstops.breaks []) hrun
      rw [List.map_cons, toList_spaced]
      exact ⟨.piece (hpiece.head_normalise hhead) (hpiece.again hstops hopen hwords)
        hscans.joinedTail, hwords⟩

theorem Scans.normalise_normalise (h : Scans cs ps) :
    ∀ p ∈ ps, normalise (normalise p).toList = normalise p := by
  induction h with
  | nil => exact List.forall_mem_nil _
  | gap _ _ ih => exact ih
  | piece hhead hlen _ ih =>
    exact List.forall_mem_cons.2 ⟨(piece_of_length hhead hlen).normalise_normalise, ih⟩

/-- Consecutive lexemes of a text, joined by spaces, are the lexemes of the joined text. -/
theorem Scans.tokenize_normalised (h : Scans cs ps) (hcs : '\x0b' ∉ cs) (hqs : qs <:+: ps) :
    tokenize (spaced (qs.map normalise)) = qs.map normalise := by
  obtain ⟨before, after, rfl⟩ := hqs
  rw [List.append_assoc] at h
  obtain ⟨rest, hsuffix, hrest⟩ := h.of_append
  have hscans := (hrest.rescan (fun hm => hcs (hsuffix.mem hm)) (List.prefix_append qs after)).1
  rw [tokenize, scan, hscans.texts 0, List.map_map]
  refine List.map_congr_left fun q hq => ?_
  exact hrest.normalise_normalise q (List.mem_append_left after hq)

end Lexeme

theorem Text.mem_of_mem_trim {s : String} {c : Char} (h : c ∈ (trim s).toList) : c ∈ s.toList := by
  rw [trim, String.toList_ofList, trimBy, List.mem_reverse] at h
  have hmem := (List.dropWhile_suffix _).mem h
  rw [List.mem_reverse] at hmem
  exact (List.dropWhile_suffix _).mem hmem

theorem exists_infix_of_map {α β : Type} {f : α → β} {xs : List α} {ys : List β}
    (h : ys <:+: xs.map f) : ∃ zs, zs <:+: xs ∧ zs.map f = ys := by
  obtain ⟨before, after, heq⟩ := h
  obtain ⟨front, back, rfl, hfront, rfl⟩ := List.map_eq_append_iff.1 heq.symm
  obtain ⟨first, zs, rfl, -, hzs⟩ := List.map_eq_append_iff.1 hfront
  exact ⟨zs, ⟨first, back, rfl⟩, hzs⟩

/-- Consecutive tokens of a line, joined by spaces, are read again as they are. -/
theorem Token.tokenize_join {line : String} (h : '\x0b' ∉ line.toList) {tokens part : List Token}
    (hline : Token.ofLine line = .ok tokens) (hpart : part <:+: tokens) :
    tokenize (Token.join part) = Token.texts part := by
  obtain ⟨ps, hps⟩ := Lexeme.exists_scans (trim line).toList
  have htexts : Token.texts tokens = ps.map Lexeme.normalise :=
    (Token.mapM_ofLexeme_ok hline).1.trans (hps.texts 0)
  have hinfix : Token.texts part <:+: ps.map Lexeme.normalise := by
    rw [← htexts]
    exact hpart.map Token.text
  obtain ⟨qs, hqs, hmap⟩ := exists_infix_of_map hinfix
  have htab : '\x0b' ∉ (trim line).toList := fun hm => h (mem_of_mem_trim hm)
  have hagain := hps.tokenize_normalised htab hqs
  rwa [hmap] at hagain

/-- The tokens of a line are read again as they are when they are joined by single spaces, and so
is every part of them that a statement passes on, with the kinds that its tokens have. -/
theorem tokenize_spaced (line : String) (h : '\x0b' ∉ line.toList) :
    tokenize (spaced (tokenize line)) = tokenize line ∧
      ∀ tokens, Token.ofLine line = .ok tokens → ∀ part, part <:+: tokens →
        (tokenize (Token.join part)).map (fun text => (text, classify text)) =
          part.map fun t => (t.text, t.kind) := by
  refine ⟨?_, fun tokens hline part hpart => ?_⟩
  · obtain ⟨ps, hps⟩ := Lexeme.exists_scans line.toList
    have htexts : tokenize line = ps.map Lexeme.normalise := hps.texts 0
    rw [htexts]
    exact hps.tokenize_normalised h List.infix_rfl
  · rw [Token.tokenize_join h hline hpart, Token.texts, List.map_map]
    refine List.map_congr_left fun t ht => ?_
    rw [Function.comp_apply, (Token.valid_of_ofLine hline t (hpart.mem ht)).1]

example : tokenize (spaced (tokenize "please\x0bcreate")) = ["please create"] := by decide +kernel

/-- Lexemes that touch each other, and a phrase with a tab inside. -/
theorem tokenize_spaced_touching :
    let line := "thank you\tfor checking if x less then-5.5\x7b"
    tokenize (spaced (tokenize line)) = tokenize line ∧
      ∀ tokens, Token.ofLine line = .ok tokens → ∀ part, part <:+: tokens →
        (tokenize (Token.join part)).map (fun text => (text, classify text)) =
          part.map fun t => (t.text, t.kind) :=
  tokenize_spaced _ (by decide +kernel)

end Courtesy
