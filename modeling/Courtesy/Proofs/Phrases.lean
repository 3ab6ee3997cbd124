import Courtesy.Proofs.Recognisers

/-!
# Phrases in a text

A phrase may be spelled with any white space between its words (`Spells`), and
`phraseLength?_eq_some_iff` says that nothing else is taken for it. Which phrases a text starts with
is read off the words at its head, up to the first character that is neither part of a word nor
white space (`wordRun`): as no phrase starts another one, there is at most one
(`anyPhraseLength?_eq_some_iff`).
-/

namespace Courtesy

open Text

namespace Lexeme

/-! ## Spellings -/

/-- A word of a phrase. -/
def IsWord (w : List Char) : Prop := w ≠ [] ∧ ∀ c ∈ w, isWordChar c = true

/-- A gap inside of a phrase. -/
def IsSpace (gap : List Char) : Prop := gap ≠ [] ∧ ∀ c ∈ gap, isPhraseSpace c = true

/-- A text that consists of given words in order, with gaps between them. -/
inductive Spells : List (List Char) → List Char → Prop
  | last {w : List Char} (hw : IsWord w) : Spells [w] w
  | more {w gap p : List Char} {ws : List (List Char)} (hw : IsWord w) (hgap : IsSpace gap)
      (h : Spells ws p) : Spells (w :: ws) (w ++ (gap ++ p))

variable {w p gap rest cs : List Char} {ws : List (List Char)} {c : Char} {n : Nat}

theorem IsWord.head (h : IsWord w) (rest : List Char) :
    ∃ c cs, w ++ rest = c :: cs ∧ isWordChar c = true := by
  obtain ⟨c, cs, rfl⟩ := List.exists_cons_of_ne_nil h.1
  exact ⟨c, cs ++ rest, rfl, h.2 c List.mem_cons_self⟩

theorem Spells.head (h : Spells ws p) (rest : List Char) :
    ∃ c cs, p ++ rest = c :: cs ∧ isWordChar c = true := by
  cases h with
  | last hw => exact hw.head rest
  | more hw _ _ =>
    rw [List.append_assoc]
    exact hw.head _

theorem Spells.exists_cons (h : Spells ws p) : ∃ c cs, p = c :: cs ∧ isWordChar c = true := by
  have hhead := h.head []
  rwa [List.append_nil] at hhead

theorem Spells.ne_nil (h : Spells ws p) : p ≠ [] := by
  obtain ⟨c, cs, rfl, -⟩ := h.exists_cons
  exact List.cons_ne_nil c cs

/-- A phrase does not start with white space. -/
theorem Spells.head_solid (h : Spells ws p) : ∀ c ∈ p.head?, isGap c = false := by
  obtain ⟨c, cs, rfl, hc⟩ := h.exists_cons
  rintro d ⟨⟩
  exact isGap_of_isWordChar hc

theorem isPhraseSpace_of_isWordChar (h : isWordChar c = true) : isPhraseSpace c = false := by
  have hgap := isGap_of_isWordChar h
  rw [isGap, Bool.or_eq_false_iff] at hgap
  exact hgap.1

theorem takeWhile_space (hgap : IsSpace gap)
    (hrest : ∃ c cs, rest = c :: cs ∧ isWordChar c = true) :
    (gap ++ rest).takeWhile isPhraseSpace = gap := by
  obtain ⟨c, cs, rfl, hc⟩ := hrest
  rw [List.takeWhile_append_of_pos hgap.2,
    List.takeWhile_cons_of_neg (by simp [isPhraseSpace_of_isWordChar hc]), List.append_nil]

theorem phraseLength?_spells (h : Spells ws p) (hrest : atWordEnd rest = true) :
    phraseLength? ws (p ++ rest) = some p.length := by
  induction h with
  | @last w hw =>
    have hprefix : w.isPrefixOf (w ++ rest) = true := by simp
    rw [phraseLength?, List.drop_left, hprefix, hrest]
    rfl
  | @more w gap p ws hw hgap h ih =>
    have hprefix : w.isPrefixOf (w ++ (gap ++ (p ++ rest))) = true := by simp
    have hspace := takeWhile_space hgap (h.head rest)
    have hlen : gap.length ≠ 0 := fun h0 => hgap.1 (List.eq_nil_of_length_eq_zero h0)
    rw [List.append_assoc, List.append_assoc, phraseLength?, hprefix, if_pos rfl]
    · dsimp only
      rw [List.drop_left, hspace, if_neg hlen, ← List.append_assoc, ← List.length_append,
        List.drop_left, ih]
      simp [Nat.add_assoc]
    · rintro rfl
      cases h

theorem phraseLength?_some (hws : ∀ w ∈ ws, IsWord w) (h : phraseLength? ws cs = some n) :
    ∃ p rest, cs = p ++ rest ∧ n = p.length ∧ Spells ws p ∧ atWordEnd rest = true := by
  fun_induction phraseLength? ws cs generalizing n with
  | case1 => cases h
  | case2 w cs hw =>
    cases h
    rw [Bool.and_eq_true] at hw
    obtain ⟨rest, rfl⟩ := List.isPrefixOf_iff_prefix.1 hw.1
    rw [List.drop_left] at hw
    exact ⟨w, rest, rfl, rfl, .last (hws w List.mem_cons_self), hw.2⟩
  | case3 => cases h
  | case4 => cases h
  | case5 w ws cs _ hw gap hgap =>
    rename_i ih
    obtain ⟨m, hm, rfl⟩ := Option.map_eq_some_iff.1 h
    obtain ⟨p, rest, hdrop, rfl, hp, hrest⟩ :=
      ih (fun v hv => hws v (List.mem_cons_of_mem w hv)) hm
    obtain ⟨tail, rfl⟩ := List.isPrefixOf_iff_prefix.1 hw
    have hlen : gap = (tail.takeWhile isPhraseSpace).length := by
      simp only [gap, List.drop_left]
    rw [← List.drop_drop, List.drop_left] at hdrop
    have htail : tail = tail.takeWhile isPhraseSpace ++ (p ++ rest) := by
      have hsplit := List.take_append_drop gap tail
      rw [hdrop, hlen, take_takeWhile] at hsplit
      exact hsplit.symm
    have hspace : IsSpace (tail.takeWhile isPhraseSpace) := by
      refine ⟨fun hnil => hgap ?_, fun c hc => of_mem_takeWhile hc⟩
      rw [hlen, hnil]
      rfl
    refine ⟨w ++ (tail.takeWhile isPhraseSpace ++ p), rest, ?_, ?_,
      .more (hws w List.mem_cons_self) hspace hp, hrest⟩
    · rw [List.append_assoc, List.append_assoc, ← htail]
    · rw [List.length_append, List.length_append, hlen, Nat.add_assoc]
  | case6 => cases h

/-! ## The words at the head of a text -/

/-- The pieces between white space at the head of a text, up to a character that is neither part of
a word nor white space. -/
def headPieces : List Char → List (List Char)
  | [] => [[]]
  | c :: cs =>
    if isWordChar c then consPiece c (headPieces cs)
    else if isPhraseSpace c then [] :: headPieces cs
    else [[]]

/-- The words at the head of a text. -/
def wordRun (cs : List Char) : List (List Char) := (headPieces cs).filter (!·.isEmpty)

theorem wordRun_space (hc : isPhraseSpace c = true) (cs : List Char) :
    wordRun (c :: cs) = wordRun cs := by
  have hword : isWordChar c = false := by
    rw [Bool.eq_false_iff]
    intro hw
    rw [isPhraseSpace_of_isWordChar hw] at hc
    cases hc
  simp [wordRun, headPieces, hword, hc]

theorem wordRun_other (hword : isWordChar c = false) (hspace : isPhraseSpace c = false)
    (cs : List Char) : wordRun (c :: cs) = [] := by
  simp [wordRun, headPieces, hword, hspace]

theorem headPieces_atWordEnd (h : atWordEnd cs = true) : ∃ ps, headPieces cs = [] :: ps := by
  cases cs with
  | nil => exact ⟨[], rfl⟩
  | cons c cs =>
    have hc : isWordChar c = false := by simpa [atWordEnd] using h
    simp only [headPieces, hc]
    split
    · contradiction
    · split
      · exact ⟨_, rfl⟩
      · exact ⟨_, rfl⟩

theorem wordRun_word (hw : IsWord w) (hrest : atWordEnd rest = true) :
    wordRun (w ++ rest) = w :: wordRun rest := by
  obtain ⟨ps, hps⟩ := headPieces_atWordEnd hrest
  have hpieces : headPieces (w ++ rest) = w :: ps := by
    obtain ⟨-, hall⟩ := hw
    induction w with
    | nil => exact hps
    | cons c w ih =>
      obtain ⟨hc, hall⟩ := List.forall_mem_cons.1 hall
      rw [List.cons_append, headPieces, if_pos hc, ih hall]
      rfl
  have hne : w.isEmpty = false := by simpa using hw.1
  simp [wordRun, hpieces, hps, hne]

theorem wordRun_gap (h : ∀ c ∈ gap, isPhraseSpace c = true) (rest : List Char) :
    wordRun (gap ++ rest) = wordRun rest := by
  induction gap with
  | nil => rfl
  | cons c gap ih =>
    obtain ⟨hc, hgap⟩ := List.forall_mem_cons.1 h
    rw [List.cons_append, wordRun_space hc, ih hgap]

theorem IsSpace.atWordEnd (h : IsSpace gap) (rest : List Char) :
    atWordEnd (gap ++ rest) = true := by
  obtain ⟨c, gap, rfl⟩ := List.exists_cons_of_ne_nil h.1
  rw [List.cons_append, atWordEnd_iff]
  rintro d ⟨⟩
  rw [Bool.eq_false_iff]
  intro hword
  have hspace := h.2 c List.mem_cons_self
  rw [isPhraseSpace_of_isWordChar hword] at hspace
  cases hspace

theorem wordRun_spells (h : Spells ws p) (hrest : atWordEnd rest = true) :
    wordRun (p ++ rest) = ws ++ wordRun rest := by
  induction h with
  | last hw => exact wordRun_word hw hrest
  | more hw hgap _ ih =>
    rw [List.append_assoc, List.append_assoc, wordRun_word hw (hgap.atWordEnd _),
      wordRun_gap hgap.2, ih]
    rfl

theorem wordRun_eq_nil (hword : atWordEnd cs = true)
    (hspace : ∀ c ∈ cs.head?, isPhraseSpace c = false) : wordRun cs = [] := by
  cases cs with
  | nil => rfl
  | cons c cs => exact wordRun_other (atWordEnd_iff.1 hword c rfl) (hspace c rfl) cs

theorem exists_word (cs : List Char) :
    ∃ w rest, cs = w ++ rest ∧ (∀ c ∈ w, isWordChar c = true) ∧ atWordEnd rest = true := by
  refine ⟨cs.takeWhile isWordChar, cs.drop (cs.takeWhile isWordChar).length, ?_,
    fun c hc => of_mem_takeWhile hc, atWordEnd_drop cs⟩
  have hsplit := List.take_append_drop (cs.takeWhile isWordChar).length cs
  rw [take_takeWhile] at hsplit
  exact hsplit.symm

theorem exists_gap (cs : List Char) :
    ∃ gap rest, cs = gap ++ rest ∧ (∀ c ∈ gap, isPhraseSpace c = true) ∧
      ∀ c ∈ rest.head?, isPhraseSpace c = false := by
  refine ⟨cs.takeWhile isPhraseSpace, cs.dropWhile isPhraseSpace,
    List.takeWhile_append_dropWhile.symm, fun c hc => of_mem_takeWhile hc, fun c hc => ?_⟩
  have hhead := List.head?_dropWhile_not isPhraseSpace cs
  rw [hc] at hhead
  simpa using hhead

/-- A text that does not start with white space starts with the words of its run. -/
theorem spells_of_prefix (hne : ws ≠ []) (hcs : ∀ c ∈ cs.head?, isPhraseSpace c = false)
    (h : ws <+: wordRun cs) : ∃ p rest, cs = p ++ rest ∧ Spells ws p ∧ atWordEnd rest = true := by
  induction ws generalizing cs with
  | nil => exact absurd rfl hne
  | cons w ws ih =>
    obtain ⟨u, rest, rfl, hu, hrest⟩ := exists_word cs
    by_cases hnil : u = []
    · subst hnil
      rw [List.nil_append] at h hcs
      rw [wordRun_eq_nil hrest hcs, List.prefix_nil] at h
      cases h
    · have hword : IsWord u := ⟨hnil, hu⟩
      rw [wordRun_word hword hrest, List.cons_prefix_cons] at h
      obtain ⟨rfl, h⟩ := h
      by_cases hws : ws = []
      · subst hws
        exact ⟨w, rest, rfl, .last hword, hrest⟩
      · obtain ⟨gap, rest, rfl, hgap, hspace⟩ := exists_gap rest
        have hne : gap ≠ [] := by
          rintro rfl
          rw [List.nil_append] at h hrest
          rw [wordRun_eq_nil hrest hspace, List.prefix_nil] at h
          exact hws h
        rw [wordRun_gap hgap] at h
        obtain ⟨p, rest, rfl, hp, hend⟩ := ih hws hspace h
        refine ⟨w ++ (gap ++ p), rest, ?_, .more hword ⟨hne, hgap⟩ hp, hend⟩
        simp only [List.append_assoc]

/-! ## Phrases of the vocabulary -/

/-- The phrases as lists of words. -/
def phrases : List (List (List Char)) := Vocabulary.phrases.map (·.map String.toList)

theorem isWord_of_mem_phrases (h : ws ∈ phrases) : ∀ w ∈ ws, IsWord w := by
  have hall : ∀ ws ∈ phrases, ∀ w ∈ ws, w ≠ [] ∧ w.all isWordChar = true := by decide +kernel
  intro w hw
  obtain ⟨hne, hword⟩ := hall ws h w hw
  exact ⟨hne, List.all_eq_true.1 hword⟩

/-- No phrase starts another one. -/
theorem eq_of_prefix_phrases {vs : List (List Char)} (hws : ws ∈ phrases) (hvs : vs ∈ phrases)
    (h : ws <+: vs) : ws = vs := by
  have hall : ∀ ws ∈ phrases, ∀ vs ∈ phrases, ws.isPrefixOf vs = true → ws = vs := by decide +kernel
  exact hall ws hws vs hvs (List.isPrefixOf_iff_prefix.2 h)

/-- A text starts with at most one phrase. -/
theorem phrase_unique {vs : List (List Char)} (hws : ws ∈ phrases) (hvs : vs ∈ phrases) {m : Nat}
    (h : phraseLength? ws cs = some n) (h' : phraseLength? vs cs = some m) : ws = vs := by
  obtain ⟨p, rest, rfl, -, hp, hrest⟩ := phraseLength?_some (isWord_of_mem_phrases hws) h
  obtain ⟨q, rest', heq, -, hq, hrest'⟩ := phraseLength?_some (isWord_of_mem_phrases hvs) h'
  have hrun := wordRun_spells hp hrest
  rw [heq, wordRun_spells hq hrest'] at hrun
  rcases List.prefix_or_prefix_of_prefix ⟨_, rfl⟩ ⟨_, hrun⟩ with hprefix | hprefix
  · exact eq_of_prefix_phrases hws hvs hprefix
  · exact (eq_of_prefix_phrases hvs hws hprefix).symm

theorem anyPhraseLength?_eq_some_iff :
    anyPhraseLength? cs = some n ↔ ∃ ws ∈ phrases, phraseLength? ws cs = some n := by
  have hany : anyPhraseLength? cs = phrases.findSome? (phraseLength? · cs) := by
    rw [anyPhraseLength?, phrases, List.findSome?_map]
    rfl
  rw [hany]
  constructor
  · intro h
    exact List.exists_of_findSome?_eq_some h
  · rintro ⟨ws, hws, h⟩
    cases hfind : phrases.findSome? (phraseLength? · cs) with
    | none =>
      rw [List.findSome?_eq_none_iff] at hfind
      rw [hfind ws hws] at h
      cases h
    | some m =>
      obtain ⟨vs, hvs, h'⟩ := List.exists_of_findSome?_eq_some hfind
      rw [← phrase_unique hws hvs h h', h] at h'
      exact h'.symm

theorem anyPhraseLength?_some (h : anyPhraseLength? cs = some n) :
    ∃ ws ∈ phrases, ∃ p rest, cs = p ++ rest ∧ n = p.length ∧ Spells ws p ∧
      atWordEnd rest = true := by
  obtain ⟨ws, hws, h⟩ := anyPhraseLength?_eq_some_iff.1 h
  exact ⟨ws, hws, phraseLength?_some (isWord_of_mem_phrases hws) h⟩

theorem anyPhraseLength?_spells (hws : ws ∈ phrases) (h : Spells ws p)
    (hrest : atWordEnd rest = true) : anyPhraseLength? (p ++ rest) = some p.length :=
  anyPhraseLength?_eq_some_iff.2 ⟨ws, hws, phraseLength?_spells h hrest⟩

/-! ## The text of a phrase -/

theorem words_blank (hc : isBlank c = true) (cs : List Char) : words (c :: cs) = words cs := by
  simp [words, split_cons, hc]

theorem words_gap (h : ∀ c ∈ gap, isPhraseSpace c = true) (rest : List Char) :
    words (gap ++ rest) = words rest := by
  induction gap with
  | nil => rfl
  | cons c gap ih =>
    obtain ⟨hc, hgap⟩ := List.forall_mem_cons.1 h
    rw [List.cons_append, words_blank (isBlank_of_isGap (isGap_of_isPhraseSpace hc)), ih hgap]

theorem words_word (hw : IsWord w) (hrest : ∀ c ∈ rest.head?, isBlank c = true) :
    words (w ++ rest) = w :: words rest := by
  obtain ⟨ps, hps⟩ : ∃ ps, split isBlank rest = [] :: ps := by
    cases rest with
    | nil => exact ⟨[], rfl⟩
    | cons c rest => exact ⟨_, by rw [split_cons, if_pos (hrest c rfl)]⟩
  have hsplit : split isBlank (w ++ rest) = w :: ps := by
    obtain ⟨-, hall⟩ := hw
    induction w with
    | nil => exact hps
    | cons c w ih =>
      obtain ⟨hc, hall⟩ := List.forall_mem_cons.1 hall
      rw [List.cons_append, split_cons, isBlank_of_isWordChar hc, ih hall]
      rfl
  have hne : w.isEmpty = false := by simpa using hw.1
  simp [words, hsplit, hps, hne]

theorem words_spells (h : Spells ws p) : words p = ws := by
  induction h with
  | @last w hw =>
    have hword : words (w ++ []) = w :: words [] := words_word hw (by simp)
    rwa [List.append_nil] at hword
  | @more w gap p ws hw hgap h ih =>
    have hhead : ∀ c ∈ (gap ++ p).head?, isBlank c = true := by
      obtain ⟨c, gap, rfl⟩ := List.exists_cons_of_ne_nil hgap.1
      rintro d ⟨⟩
      exact isBlank_of_isGap (isGap_of_isPhraseSpace (hgap.2 c List.mem_cons_self))
    rw [words_word hw hhead, words_gap hgap.2, ih]

/-- The words of a phrase with single spaces between them. -/
theorem Spells.spaced (h : Spells ws p) : Spells ws (spaced (ws.map String.ofList)).toList := by
  induction h with
  | @last w hw =>
    have hone : (Text.spaced ([w].map String.ofList)).toList = w := by simp [Text.spaced]
    rw [hone]
    exact .last hw
  | @more w gap p ws hw hgap h ih =>
    obtain ⟨v, ws, rfl⟩ := List.exists_cons_of_ne_nil (l := ws) (by rintro rfl; cases h)
    have hcons : (Text.spaced ((w :: v :: ws).map String.ofList)).toList =
        w ++ ([' '] ++ (Text.spaced ((v :: ws).map String.ofList)).toList) := by
      have := toList_intercalate_cons_cons " " (String.ofList w) (String.ofList v)
        (ws.map String.ofList)
      rwa [String.toList_ofList] at this
    rw [hcons]
    exact .more hw ⟨by simp, by simp [isPhraseSpace]⟩ ih

theorem normalise_spells (h : Spells ws p) :
    normalise p =
      if p.any (fun c => c == ' ' || c == '\t') then Text.spaced (ws.map String.ofList)
      else String.ofList p := by
  obtain ⟨c, cs, hp, hc⟩ := h.exists_cons
  have hquote : (p.head? != some '"') = true := by
    rw [hp, bne_iff_ne]
    rintro ⟨⟩
    exact absurd hc (by decide)
  rw [normalise, hquote, Bool.and_true, words_spells h]

theorem Spells.normalise (h : Spells ws p) : Spells ws (normalise p).toList := by
  rw [normalise_spells h]
  split
  · exact h.spaced
  · rwa [String.toList_ofList]

theorem Spells.normalise_normalise (h : Spells ws p) :
    Lexeme.normalise (Lexeme.normalise p).toList = Lexeme.normalise p := by
  rw [normalise_spells h.normalise, normalise_spells h]
  split
  · split
    · rfl
    · rw [String.ofList_toList]
  · rename_i hno
    rw [String.toList_ofList, if_neg hno]

end Lexeme

end Courtesy
