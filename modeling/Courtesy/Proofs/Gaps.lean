import Courtesy.Proofs.Spacing

/-!
# White space of any kind between lexemes

What a run of white space does depends on the place where it stands. At most places it parts two
lexemes, whatever it consists of: the lexemes are those in front of it and those behind it. There
are two exceptions. Between the words of a phrase a run without a vertical tab keeps the phrase
together, and one with a vertical tab breaks it (`Scans.parted_or_bridged`, `Scans.parted_of_tab`).
And a vertical tab right behind a symbol is taken for another symbol (`Apart`). The text of a phrase
has single spaces only if it was written with a space or a tab. Main statement:
`tokenize_white_space`.
-/

namespace Courtesy

open Text

namespace Lexeme

/-! ## Phrases and their gaps -/

/-- A run of white space. -/
def IsWhite (g : List Char) : Prop := g ≠ [] ∧ ∀ c ∈ g, isGap c = true

theorem IsSpace.isWhite {g : List Char} (h : IsSpace g) : IsWhite g :=
  ⟨h.1, fun c hc => isGap_of_isPhraseSpace (h.2 c hc)⟩

variable {c : Char} {ws : List (List Char)}

theorem isWordChar_of_isGap (h : isGap c = true) : isWordChar c = false := by
  rw [Bool.eq_false_iff]
  intro hword
  rw [isGap_of_isWordChar hword] at h
  cases h

theorem isWordChar_of_isPhraseSpace (h : isPhraseSpace c = true) : isWordChar c = false :=
  isWordChar_of_isGap (isGap_of_isPhraseSpace h)

/-- A phrase consists of word characters and white space without vertical tabs. -/
theorem Spells.chars {p : List Char} (h : Spells ws p) :
    ∀ c ∈ p, isWordChar c = true ∨ isPhraseSpace c = true := by
  induction h with
  | last hw => exact fun c hc => .inl (hw.2 c hc)
  | more hw hgap _ ih =>
    intro c hc
    rcases List.mem_append.1 hc with hc | hc
    · exact .inl (hw.2 c hc)
    · rcases List.mem_append.1 hc with hc | hc
      · exact .inr (hgap.2 c hc)
      · exact ih c hc

/-- A phrase does not end with white space. -/
theorem Spells.getLast {p : List Char} (h : Spells ws p) :
    ∀ c ∈ p.getLast?, isWordChar c = true := by
  induction h with
  | last hw => exact fun c hc => hw.2 c (List.mem_of_getLast? hc)
  | @more w gap p ws _ _ h ih =>
    rw [List.getLast?_append, List.getLast?_append]
    cases hlast : p.getLast? with
    | none => exact absurd (List.getLast?_eq_none_iff.1 hlast) h.ne_nil
    | some d =>
      rintro c ⟨⟩
      exact ih d hlast

/-- A word in front of white space ends before it. -/
theorem IsWord.append_eq_append {w g x y z : List Char} (hw : IsWord w) (hg : IsSpace g)
    (h : w ++ y = x ++ (g ++ z)) : ∃ x', x = w ++ x' ∧ y = x' ++ (g ++ z) := by
  rcases List.append_eq_append_iff.1 h with ⟨x', hx, hy⟩ | ⟨x', hx, hy⟩
  · exact ⟨x', hx, hy⟩
  · cases x' with
    | nil => exact ⟨[], by simpa using hx.symm, by simpa using hy.symm⟩
    | cons c x' =>
      obtain ⟨d, g, rfl⟩ := List.exists_cons_of_ne_nil hg.1
      obtain ⟨rfl, -⟩ := List.cons.inj hy
      have hd := isWordChar_of_isPhraseSpace (hg.2 d List.mem_cons_self)
      rw [hw.2 d (by simp [hx])] at hd
      cases hd

/-- White space in front of a word ends before it. -/
theorem IsSpace.append_eq_append {g p y v : List Char} (hg : IsSpace g) (hp : Spells ws p)
    (h : g ++ v = y ++ p) : ∃ z, y = g ++ z ∧ v = z ++ p := by
  rcases List.append_eq_append_iff.1 h with ⟨z, hz, hv⟩ | ⟨z, hz, hv⟩
  · exact ⟨z, hz, hv⟩
  · cases z with
    | nil => exact ⟨[], by simpa using hz.symm, by simpa using hv.symm⟩
    | cons c z =>
      obtain ⟨e, cs, heq, he⟩ := hp.exists_cons
      rw [hv] at heq
      obtain ⟨rfl, -⟩ := List.cons.inj heq
      rw [isWordChar_of_isPhraseSpace (hg.2 c (by simp [hz]))] at he
      cases he

/-- A gap of a phrase may be exchanged for another one. -/
theorem Spells.regap {u g v g' : List Char} (h : Spells ws (u ++ (g ++ v))) (hg : IsSpace g)
    (hg' : IsSpace g') : Spells ws (u ++ (g' ++ v)) := by
  generalize hp : u ++ (g ++ v) = p at h
  induction h generalizing u with
  | last hw =>
    obtain ⟨x, -, hx⟩ := hw.append_eq_append hg ((List.append_nil _).trans hp.symm)
    exact absurd (List.append_eq_nil_iff.1 (List.append_eq_nil_iff.1 hx.symm).2).1 hg.1
  | @more w gap p ws hw hgap h ih =>
    obtain ⟨x, rfl, hx⟩ := hw.append_eq_append hg hp.symm
    rcases List.append_eq_append_iff.1 hx with ⟨y, rfl, hy⟩ | ⟨y, rfl, hy⟩
    · -- the run stands behind the gap of the first word
      have hmore := Spells.more hw hgap (ih hy.symm)
      simpa only [List.append_assoc] using hmore
    · obtain ⟨z, rfl, rfl⟩ := hg.append_eq_append h hy
      have hspace : IsSpace (x ++ (g' ++ z)) := by
        refine ⟨by simp [hg'.1], fun c hc => ?_⟩
        rcases List.mem_append.1 hc with hc | hc
        · exact hgap.2 c (List.mem_append_left _ hc)
        · rcases List.mem_append.1 hc with hc | hc
          · exact hg'.2 c hc
          · exact hgap.2 c (by simp [hc])
      have hmore := Spells.more hw hspace h
      simpa only [List.append_assoc] using hmore

/-- A phrase that reaches into white space goes on behind it. -/
theorem Spells.crosses {q rest x g b : List Char} (hq : Spells ws q) (hg : IsWhite g)
    (h : q ++ rest = x ++ (g ++ b)) (hlen : x.length < q.length) :
    ∃ v, q = x ++ (g ++ v) ∧ b = v ++ rest := by
  rcases List.append_eq_append_iff.1 h with ⟨y, rfl, -⟩ | ⟨y, rfl, hy⟩
  · rw [List.length_append] at hlen
    omega
  · rcases List.append_eq_append_iff.1 hy with ⟨v, rfl, rfl⟩ | ⟨v, rfl, -⟩
    · exact ⟨v, rfl, rfl⟩
    · -- otherwise the phrase would end with white space
      cases hlast : y.getLast? with
      | none =>
        rw [List.getLast?_eq_none_iff.1 hlast, List.append_nil] at hlen
        exact absurd hlen (Nat.lt_irrefl _)
      | some c =>
        have hword := hq.getLast c (by rw [List.getLast?_append, hlast]; rfl)
        have hgap := hg.2 c (List.mem_append_left v (List.mem_of_getLast? hlast))
        rw [isWordChar_of_isGap hgap] at hword
        cases hword

/-! ## Lexemes in front of white space -/

/-- A run of white space is no part of the symbols in front of it. -/
def Apart (a g : List Char) : Prop :=
  g.head? = some '\x0b' → ∀ c ∈ a.getLast?, isSymbol c = false

theorem IsSpace.apart {g : List Char} (h : IsSpace g) (a : List Char) : Apart a g := by
  intro hhead
  have hspace := h.2 '\x0b' (List.mem_of_head? hhead)
  cases hspace

theorem Apart.of_append {p rest g : List Char} (h : Apart (p ++ rest) g) : Apart rest g := by
  intro hhead c hc
  refine h hhead c ?_
  rw [List.getLast?_append, Option.mem_def.1 hc]
  rfl

theorem IsWhite.breaks {g : List Char} (h : IsWhite g) (b : List Char) : Breaks (g ++ b) := by
  obtain ⟨d, g, rfl⟩ := List.exists_cons_of_ne_nil h.1
  have hd := h.2 d List.mem_cons_self
  rintro c ⟨⟩
  refine ⟨isWordChar_of_isGap hd, ?_⟩
  rintro rfl
  cases hd

/-- A run of symbols does not reach into white space that stands apart from it. -/
theorem Apart.takeWhile {cs g : List Char} (h : Apart (c :: cs) g) (hg : IsWhite g)
    (b : List Char) :
    (cs ++ (g ++ b)).takeWhile isSymbol = cs.takeWhile isSymbol ∨ isSymbol c = false := by
  obtain ⟨d, g, rfl⟩ := List.exists_cons_of_ne_nil hg.1
  by_cases hd : isSymbol d = true
  · -- the only symbol that is white space is the vertical tab
    have htab : d = '\x0b' := by
      have hgap := hg.2 d List.mem_cons_self
      rw [isGap, Bool.or_eq_true, beq_iff_eq] at hgap
      refine hgap.resolve_left fun hspace => ?_
      simp [isSymbol, hspace] at hd
    have hplain := h (by rw [htab]; rfl)
    rw [← List.singleton_append, List.getLast?_append] at hplain
    cases hlast : cs.getLast? with
    | none =>
      rw [hlast] at hplain
      exact .inr (hplain c rfl)
    | some e =>
      rw [hlast] at hplain
      have hne : (cs.takeWhile isSymbol).length ≠ cs.length := by
        intro heq
        have hall := (List.takeWhile_prefix isSymbol).eq_of_length heq
        have he : e ∈ cs.takeWhile isSymbol := by
          rw [hall]
          exact List.mem_of_getLast? hlast
        exact absurd (of_mem_takeWhile he) (by simp [hplain e rfl])
      exact .inl (by rw [List.takeWhile_append, if_neg hne])
  · left
    refine takeWhile_append_of_head ?_ cs
    rintro e ⟨⟩
    simpa using hd

section

variable {p rest g : List Char} (hhead : ∀ c ∈ p.head?, isGap c = false)
  (hlen : lexemeLength? (p ++ rest) = some p.length) (hclosed : Closed (p ++ rest))
  (hg : IsWhite g) (hapart : Apart (p ++ rest) g)

include hhead hlen hclosed hg hapart

/-- A lexeme in front of white space is the same lexeme, unless a phrase crosses the white space. -/
theorem lexemeLength?_append_white (b : List Char)
    (hcross : ∀ ws ∈ phrases, ∀ v tail, b = v ++ tail → atWordEnd tail = true →
      ¬ Spells ws (p ++ rest ++ (g ++ v))) :
    lexemeLength? (p ++ (rest ++ (g ++ b))) = some p.length := by
  have hbreaks := hg.breaks b
  cases piece_of_length hhead hlen with
  | phrase hws hp hrest =>
    have hend : atWordEnd (rest ++ (g ++ b)) = true := by rwa [atWordEnd_append hbreaks]
    rw [lexemeLength?_eq, anyPhraseLength?_spells hws hp hend]
    rfl
  | @literal body hb hp =>
    have htext : p ++ (rest ++ (g ++ b)) = '"' :: (body ++ '"' :: (rest ++ (g ++ b))) := by
      simp [hp]
    rw [htext, lexemeLength?_literal hb, hp]
    simp
  | opened hb hp hrest =>
    rw [hp, hrest, List.append_nil] at hclosed
    exact absurd hclosed (not_closed_quote_plain hb)
  | @ordinary c cs hc hp hno _ =>
    have hnone : anyPhraseLength? (p ++ rest ++ (g ++ b)) = none := by
      cases hsome : anyPhraseLength? (p ++ rest ++ (g ++ b)) with
      | none => rfl
      | some n =>
        obtain ⟨ws, hws, q, tail, heq, -, hq, hend⟩ := anyPhraseLength?_some hsome
        by_cases hlt : (p ++ rest).length < q.length
        · obtain ⟨v, rfl, hv⟩ := hq.crosses hg heq.symm hlt
          exact absurd hq (hcross ws hws v tail hv hend)
        · -- a phrase that ends in front of the white space stood there before
          rcases List.append_eq_append_iff.1 heq with ⟨y, rfl, -⟩ | ⟨y, hy, rfl⟩
          · cases y with
            | nil =>
              have hnil : atWordEnd [] = true := rfl
              have hphrase := anyPhraseLength?_spells hws hq hnil
              rw [List.append_nil, List.append_nil, hno] at hphrase
              cases hphrase
            | cons d y => exact absurd (by simp) hlt
          · rw [atWordEnd_append hbreaks] at hend
            rw [hy, anyPhraseLength?_spells hws hq hend] at hno
            cases hno
    rw [hp, List.cons_append] at hapart
    rw [lexemeLength?_eq, hno, hp, List.cons_append] at hlen
    rw [← List.append_assoc, lexemeLength?_eq, hnone, hp, List.cons_append,
      ordinaryLength?_append_breaks hc hbreaks (hapart.takeWhile hg b)]
    exact hlen

end

/-- Behind a piece of a closed text the quotes are closed again. -/
theorem Piece.closed {p rest : List Char} (h : Piece p rest) (hclosed : Closed (p ++ rest)) :
    Closed rest := by
  cases h with
  | phrase _ hp _ =>
    refine hclosed.of_plain_append fun hquote => ?_
    rcases hp.chars '"' hquote with hword | hspace
    · cases hword
    · cases hspace
  | @literal body hb hp =>
    have htext : p ++ rest = '"' :: (body ++ '"' :: rest) := by simp [hp]
    rw [htext] at hclosed
    exact hclosed.of_literal_append hb
  | opened hb hp hrest =>
    rw [hp, hrest, List.append_nil] at hclosed
    exact absurd hclosed (not_closed_quote_plain hb)
  | ordinary hc hp _ h =>
    obtain ⟨hsolid, -, -⟩ := h.piece hc
    refine hclosed.of_plain_append fun hquote => ?_
    rw [hp] at hquote
    exact (solid_of_isStop (hsolid '"' hquote)).2 rfl

theorem closed_of_gap {cs : List Char} (hc : isGap c = true) (h : Closed (c :: cs)) :
    Closed cs := by
  have hquote : c ≠ '"' := by
    rintro rfl
    cases hc
  exact h.of_plain_append (p := [c]) (plain_cons.2 ⟨hquote, plain_nil⟩)

/-! ## Runs of white space -/

/-- A run with a vertical tab parts what stands around it. -/
theorem Scans.parted_of_tab {a b g : List Char} {ps qs : List (List Char)} (ha : Scans a ps)
    (hb : Scans b qs) (hclosed : Closed a) (hg : IsWhite g) (htab : '\x0b' ∈ g)
    (hapart : Apart a g) : Scans (a ++ (g ++ b)) (ps ++ qs) := by
  induction ha with
  | nil =>
    rw [List.nil_append]
    exact hb.gaps hg.2
  | @gap c cs ps hc _ ih =>
    exact .gap hc (ih (closed_of_gap hc hclosed) (hapart.of_append (p := [c])))
  | @piece p rest ps hhead hlen _ ih =>
    have hcross : ∀ ws ∈ phrases, ∀ v tail, b = v ++ tail → atWordEnd tail = true →
        ¬ Spells ws (p ++ rest ++ (g ++ v)) := by
      intro ws _ v tail _ _ hspells
      rcases hspells.chars '\x0b' (by simp [htab]) with hword | hspace
      · cases hword
      · cases hspace
    have hnext := lexemeLength?_append_white hhead hlen hclosed hg hapart b hcross
    rw [List.append_assoc]
    exact .piece hhead hnext (ih ((piece_of_length hhead hlen).closed hclosed) hapart.of_append)

/-- A phrase that starts in one text and ends in the next one, with white space between them. -/
structure Bridge (a b : List Char) where
  start : List Char
  finish : List Char
  rest : List Char
  words : List (List Char)
  suffix : start <:+ a
  eq_append : b = finish ++ rest
  mem_phrases : words ∈ phrases
  spells : ∀ g, IsSpace g → Spells words (start ++ (g ++ finish))
  atWordEnd : atWordEnd rest = true

namespace Bridge

variable {a b : List Char} (bridge : Bridge a b)

/-- The text of the phrase with the run `g` inside. -/
def text (g : List Char) : String :=
  if (bridge.start ++ (g ++ bridge.finish)).any isSpaceOrTab then
    spaced (bridge.words.map String.ofList)
  else String.ofList (bridge.start ++ (g ++ bridge.finish))

theorem normalise_eq_text {g : List Char} (hg : IsSpace g) :
    normalise (bridge.start ++ (g ++ bridge.finish)) = bridge.text g :=
  normalise_spells (bridge.spells g hg)

theorem text_eq_of_spaced {g : List Char} (h : g.any isSpaceOrTab = true) :
    bridge.text g = spaced (bridge.words.map String.ofList) :=
  if_pos (by simp [h])

/-- The phrase is the lexeme at its place. -/
theorem scans {g : List Char} (hg : IsSpace g) {qs : List (List Char)} (h : Scans bridge.rest qs) :
    Scans (bridge.start ++ (g ++ b)) ((bridge.start ++ (g ++ bridge.finish)) :: qs) := by
  have hspells := bridge.spells g hg
  have htext : bridge.start ++ (g ++ b) = bridge.start ++ (g ++ bridge.finish) ++ bridge.rest := by
    simp only [List.append_assoc, ← bridge.eq_append]
  rw [htext]
  refine .piece hspells.head_solid ?_ h
  rw [lexemeLength?_eq, anyPhraseLength?_spells bridge.mem_phrases hspells bridge.atWordEnd]
  rfl

def extend {a' : List Char} (h : a <:+ a') : Bridge a' b :=
  { bridge with suffix := bridge.suffix.trans h }

end Bridge

/-- Where no phrase crosses the place between two texts, white space without vertical tabs parts
them. -/
theorem Scans.parted_or_bridged {a : List Char} {ps : List (List Char)} (ha : Scans a ps)
    (hclosed : Closed a) (b : List Char) :
    (∀ g qs, IsSpace g → Scans b qs → Scans (a ++ (g ++ b)) (ps ++ qs)) ∨
      ∃ (bridge : Bridge a b) (front : List (List Char)), front <+: ps ∧
        ∀ g qs, IsSpace g → Scans bridge.rest qs →
          Scans (a ++ (g ++ b)) (front ++ (bridge.start ++ (g ++ bridge.finish)) :: qs) := by
  induction ha with
  | nil =>
    refine .inl fun g qs hg hb => ?_
    rw [List.nil_append]
    exact hb.gaps hg.isWhite.2
  | @gap c cs ps hc _ ih =>
    rcases ih (closed_of_gap hc hclosed) with hparts | ⟨bridge, front, hfront, hbridge⟩
    · exact .inl fun g qs hg hb => .gap hc (hparts g qs hg hb)
    · exact .inr ⟨bridge.extend (List.suffix_cons c cs), front, hfront,
        fun g qs hg hb => .gap hc (hbridge g qs hg hb)⟩
  | @piece p rest ps hhead hlen _ ih =>
    by_cases hbridge : ∃ bridge : Bridge (p ++ rest) b, bridge.start = p ++ rest
    · obtain ⟨bridge, hstart⟩ := hbridge
      refine .inr ⟨bridge, [], List.nil_prefix, fun g qs hg hb => ?_⟩
      have hscans := bridge.scans hg hb
      rwa [hstart] at hscans ⊢
    · -- no phrase starts here that crosses, so the lexeme stays
      have hnext : ∀ g, IsSpace g →
          lexemeLength? (p ++ (rest ++ (g ++ b))) = some p.length := by
        intro g hg
        refine lexemeLength?_append_white hhead hlen hclosed hg.isWhite (hg.apart _) b ?_
        intro ws hws v tail hv htail hspells
        refine hbridge ⟨⟨p ++ rest, v, tail, ws, List.suffix_rfl, hv, hws, ?_, htail⟩, rfl⟩
        exact fun g' hg' => hspells.regap hg hg'
      rcases ih ((piece_of_length hhead hlen).closed hclosed) with
        hparts | ⟨bridge, front, hfront, hbridge⟩
      · refine .inl fun g qs hg hb => ?_
        rw [List.append_assoc]
        exact .piece hhead (hnext g hg) (hparts g qs hg hb)
      · refine .inr ⟨bridge.extend (List.suffix_append p rest), p :: front,
          (List.prefix_cons_inj p).2 hfront, fun g qs hg hb => ?_⟩
        rw [List.append_assoc]
        exact .piece hhead (hnext g hg) (hbridge g qs hg hb)

end Lexeme

open Lexeme

theorem tokenize_of_scans {s : String} {ps : List (List Char)} (h : Scans s.toList ps) :
    tokenize s = ps.map normalise :=
  h.texts 0

section

variable {a b : String} {ps qs : List (List Char)} (hps : Scans a.toList ps)
  (hqs : Scans b.toList qs)

include hps hqs

theorem tokenize_parted {g : String}
    (h : Scans (a.toList ++ (g.toList ++ b.toList)) (ps ++ qs)) :
    tokenize (a ++ g ++ b) = tokenize a ++ tokenize b := by
  have htext : (a ++ g ++ b).toList = a.toList ++ (g.toList ++ b.toList) := by simp
  rw [tokenize_of_scans (htext ▸ h), tokenize_of_scans hps, tokenize_of_scans hqs,
    List.map_append]

theorem tokenize_parted_or_bridged (ha : Closed a.toList) :
    (∀ g : String, IsSpace g.toList → tokenize (a ++ g ++ b) = tokenize a ++ tokenize b) ∨
      ∃ (bridge : Bridge a.toList b.toList) (front : List String), front <+: tokenize a ∧
        ∀ g : String, IsSpace g.toList →
          tokenize (a ++ g ++ b) =
            front ++ bridge.text g.toList :: tokenize (String.ofList bridge.rest) := by
  rcases hps.parted_or_bridged ha b.toList with hparts | ⟨bridge, front, hfront, hbridge⟩
  · exact .inl fun g hg => tokenize_parted hps hqs (hparts g.toList qs hg hqs)
  · refine .inr ⟨bridge, front.map normalise, ?_, fun g hg => ?_⟩
    · rw [tokenize_of_scans hps]
      exact hfront.map normalise
    · obtain ⟨rs, hrs⟩ := exists_scans bridge.rest
      have hscans := hbridge g.toList rs hg hrs
      have htext : (a ++ g ++ b).toList = a.toList ++ (g.toList ++ b.toList) := by simp
      rw [← htext] at hscans
      rw [← String.toList_ofList (l := bridge.rest)] at hrs
      rw [tokenize_of_scans hscans, List.map_append, List.map_cons, bridge.normalise_eq_text hg,
        tokenize_of_scans hrs]

end

/-- What a run of white space does outside of string literals. Runs without vertical tabs that hold
a space or a tab can be exchanged. A run with a vertical tab parts the lexemes in front of it and
behind it, if it does not stand right behind a symbol. A run without one does so too, or else it
stands in a phrase, and the text of the phrase has single spaces only if the phrase holds a space or
a tab. -/
theorem tokenize_white_space (a b : String) (ha : Closed a.toList) :
    (∀ g g' : String, IsSpace g.toList → IsSpace g'.toList → g.toList.any isSpaceOrTab = true →
      g'.toList.any isSpaceOrTab = true → tokenize (a ++ g' ++ b) = tokenize (a ++ g ++ b)) ∧
    (∀ g : String, IsWhite g.toList → '\x0b' ∈ g.toList → Apart a.toList g.toList →
      tokenize (a ++ g ++ b) = tokenize a ++ tokenize b) ∧
    ((∀ g : String, IsSpace g.toList → tokenize (a ++ g ++ b) = tokenize a ++ tokenize b) ∨
      ∃ (bridge : Bridge a.toList b.toList) (front : List String), front <+: tokenize a ∧
        ∀ g : String, IsSpace g.toList →
          tokenize (a ++ g ++ b) =
            front ++ bridge.text g.toList :: tokenize (String.ofList bridge.rest)) := by
  obtain ⟨ps, hps⟩ := exists_scans a.toList
  obtain ⟨qs, hqs⟩ := exists_scans b.toList
  have hplace := tokenize_parted_or_bridged hps hqs ha
  refine ⟨fun g g' hg hg' hspace hspace' => ?_, fun g hg htab hapart => ?_, hplace⟩
  · rcases hplace with hparts | ⟨bridge, front, -, hbridge⟩
    · rw [hparts g hg, hparts g' hg']
    · rw [hbridge g hg, hbridge g' hg', bridge.text_eq_of_spaced hspace,
        bridge.text_eq_of_spaced hspace']
  · exact tokenize_parted hps hqs (hps.parted_of_tab hqs ha hg htab hapart)

/-- A tab and a line break may stand for the space of `please create`. -/
theorem tokenize_white_space_please :
    Closed "please".toList ∧ tokenize "please\t\ncreate x" = tokenize "please create x" ∧
      tokenize "please\x0bcreate x" = tokenize "please" ++ tokenize "create x" := by
  have hclosed : Closed "please".toList := .plain (by decide)
  obtain ⟨hsame, htab, -⟩ := tokenize_white_space "please" "create x" hclosed
  refine ⟨hclosed, hsame " " "\t\n" ?_ ?_ rfl rfl, htab "\x0b" ?_ ?_ ?_⟩
  · exact ⟨by decide, by simp [isPhraseSpace]⟩
  · exact ⟨by decide, by simp [isPhraseSpace]⟩
  · exact ⟨by decide, by simp [isGap]⟩
  · simp
  · intro _ c hc
    cases hc
    decide

/-- White space does not separate alike: a vertical tab breaks a phrase and joins symbols, and a
line break inside of a phrase is kept. -/
theorem tokenize_tab_breaks_phrase :
    tokenize "please create" = ["please create"] ∧
      tokenize "please\x0bcreate" = ["please", "create"] ∧
      tokenize "please\ncreate" = ["please\ncreate"] ∧
      tokenize "$ $" = ["$", "$"] ∧ tokenize "$\x0b$" = ["$\x0b$"] := by
  decide +kernel

end Courtesy
