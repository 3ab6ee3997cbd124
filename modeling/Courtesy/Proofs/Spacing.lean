import Courtesy.Proofs.Rescanning

/-!
# Spaces and tabs between lexemes

Two texts that differ only in the runs of spaces and tabs outside of their string literals
(`Text.Respaced`) have the same lexemes (`tokenize_respaced`), and they still differ only so when
they are trimmed (`Respaced.trimBy`).

Most lexemes hold no white space, and for them the two texts are the same. Phrases may be spelled
with different gaps, but then both spellings hold a space or a tab, and their texts are normalised
to the same words.
-/

namespace Courtesy

namespace Text

def isSpaceOrTab (c : Char) : Bool := c == ' ' || c == '\t'

/-- A run of spaces and tabs. -/
def IsRun (run : List Char) : Prop := run ≠ [] ∧ ∀ c ∈ run, isSpaceOrTab c = true

/-- Texts that differ in their runs of spaces and tabs outside of string literals. A literal that is
left open reaches to the end. -/
inductive Respaced : List Char → List Char → Prop
  | nil : Respaced [] []
  | run {g g' cs cs' : List Char} (hg : IsRun g) (hg' : IsRun g') (h : Respaced cs cs') :
      Respaced (g ++ cs) (g' ++ cs')
  | char {c : Char} {cs cs' : List Char} (hspace : isSpaceOrTab c = false) (hquote : c ≠ '"')
      (h : Respaced cs cs') : Respaced (c :: cs) (c :: cs')
  | literal {body cs cs' : List Char} (hb : Plain body) (h : Respaced cs cs') :
      Respaced ('"' :: (body ++ '"' :: cs)) ('"' :: (body ++ '"' :: cs'))
  | opened {body : List Char} (hb : Plain body) : Respaced ('"' :: body) ('"' :: body)

theorem IsRun.head {g : List Char} (h : IsRun g) (cs : List Char) :
    ∃ c more, g ++ cs = c :: more ∧ isSpaceOrTab c = true := by
  obtain ⟨c, g, rfl⟩ := List.exists_cons_of_ne_nil h.1
  exact ⟨c, g ++ cs, rfl, h.2 c List.mem_cons_self⟩

namespace Respaced

theorem symm {cs cs' : List Char} (h : Respaced cs cs') : Respaced cs' cs := by
  induction h with
  | nil => exact .nil
  | run hg hg' _ ih => exact .run hg' hg ih
  | char hspace hquote _ ih => exact .char hspace hquote ih
  | literal hb _ ih => exact .literal hb ih
  | opened hb => exact .opened hb

/-- Any text can be left as it is. -/
theorem refl (cs : List Char) : Respaced cs cs := by
  induction hlen : cs.length using Nat.strongRecOn generalizing cs with
  | ind len ih =>
    cases cs with
    | nil => exact .nil
    | cons c cs =>
      have hmore : Respaced cs cs := ih cs.length (by simp [← hlen]) cs rfl
      by_cases hquote : c = '"'
      · subst hquote
        by_cases hplain : Plain cs
        · exact .opened hplain
        · obtain ⟨body, rest, rfl, hbody⟩ :=
            List.eq_append_cons_of_mem (Decidable.not_not.1 hplain)
          refine .literal hbody (ih rest.length ?_ rest rfl)
          simp only [← hlen, List.length_cons, List.length_append]
          omega
      · by_cases hspace : isSpaceOrTab c = true
        · have hrun : IsRun [c] := ⟨List.cons_ne_nil c [], by simpa using hspace⟩
          exact .run hrun hrun hmore
        · exact .char (by simpa using hspace) hquote hmore

theorem eq_nil {cs : List Char} (h : Respaced [] cs) : cs = [] := by
  generalize hnil : ([] : List Char) = t at h
  cases h with
  | nil => rfl
  | run hg _ _ => exact absurd (List.append_eq_nil_iff.1 hnil.symm).1 hg.1
  | _ => cases hnil

theorem of_cons {c : Char} {cs t : List Char} (hspace : isSpaceOrTab c = false) (hquote : c ≠ '"')
    (h : Respaced (c :: cs) t) : ∃ cs', t = c :: cs' ∧ Respaced cs cs' := by
  generalize hcs : c :: cs = s at h
  cases h with
  | nil => cases hcs
  | run hg _ _ =>
    obtain ⟨d, more, heq, hd⟩ := hg.head _
    rw [heq] at hcs
    cases hcs
    rw [hspace] at hd
    cases hd
  | char _ _ h =>
    cases hcs
    exact ⟨_, rfl, h⟩
  | literal _ _ =>
    cases hcs
    exact absurd rfl hquote
  | opened _ =>
    cases hcs
    exact absurd rfl hquote

/-- A space or a tab is one of several, or all of its run. -/
theorem of_space {c : Char} {cs t : List Char} (hspace : isSpaceOrTab c = true)
    (h : Respaced (c :: cs) t) :
    Respaced cs t ∨ ∃ g cs', IsRun g ∧ t = g ++ cs' ∧ Respaced cs cs' := by
  generalize hcs : c :: cs = s at h
  cases h with
  | nil => cases hcs
  | @run g g' cs cs' hg hg' h =>
    obtain ⟨d, g, rfl⟩ := List.exists_cons_of_ne_nil hg.1
    cases hcs
    by_cases hnil : g = []
    · subst hnil
      exact .inr ⟨g', cs', hg', rfl, h⟩
    · exact .inl (.run ⟨hnil, (List.forall_mem_cons.1 hg.2).2⟩ hg' h)
  | char hno _ _ =>
    cases hcs
    rw [hspace] at hno
    cases hno
  | literal _ _ =>
    cases hcs
    cases hspace
  | opened _ =>
    cases hcs
    cases hspace

/-- Characters that are neither spaces and tabs nor quotes are kept. -/
theorem of_solid {p rest t : List Char}
    (hp : ∀ c ∈ p, isSpaceOrTab c = false ∧ c ≠ '"') (h : Respaced (p ++ rest) t) :
    ∃ rest', t = p ++ rest' ∧ Respaced rest rest' := by
  induction p generalizing t with
  | nil => exact ⟨t, rfl, h⟩
  | cons c p ih =>
    obtain ⟨⟨hspace, hquote⟩, hp⟩ := List.forall_mem_cons.1 hp
    obtain ⟨cs', rfl, hmore⟩ := of_cons hspace hquote h
    obtain ⟨rest', rfl, hrest⟩ := ih hp hmore
    exact ⟨rest', rfl, hrest⟩

theorem of_literal {body rest t : List Char} (hb : Plain body)
    (h : Respaced ('"' :: (body ++ '"' :: rest)) t) :
    ∃ rest', t = '"' :: (body ++ '"' :: rest') ∧ Respaced rest rest' := by
  generalize hcs : '"' :: (body ++ '"' :: rest) = s at h
  cases h with
  | nil => cases hcs
  | run hg _ _ =>
    obtain ⟨d, more, heq, hd⟩ := hg.head _
    rw [heq] at hcs
    rw [← (List.cons.inj hcs).1] at hd
    cases hd
  | char _ hquote _ => exact absurd (List.cons.inj hcs).1.symm hquote
  | @literal body' cs cs' hb' h =>
    have heq := (List.cons.inj hcs).2
    have hbody : body' = body := by
      rw [← takeWhile_plain_quote hb' cs, ← heq, takeWhile_plain_quote hb]
    subst hbody
    cases List.append_cancel_left heq
    exact ⟨cs', rfl, h⟩
  | opened hb' =>
    rw [← (List.cons.inj hcs).2] at hb'
    exact absurd (by simp) hb'

theorem of_opened {body t : List Char} (hb : Plain body) (h : Respaced ('"' :: body) t) :
    t = '"' :: body := by
  generalize hcs : '"' :: body = s at h
  cases h with
  | nil => cases hcs
  | run hg _ _ =>
    obtain ⟨d, more, heq, hd⟩ := hg.head _
    rw [heq] at hcs
    rw [← (List.cons.inj hcs).1] at hd
    cases hd
  | char _ hquote _ => exact absurd (List.cons.inj hcs).1.symm hquote
  | literal _ _ =>
    rw [(List.cons.inj hcs).2] at hb
    exact absurd (by simp) hb
  | opened _ => rfl

end Respaced

/-- The same text, or texts that both hold a space or a tab. -/
def Varies (p p' : List Char) : Prop :=
  p' = p ∨ p.any isSpaceOrTab = true ∧ p'.any isSpaceOrTab = true

theorem Varies.append {p p' q q' : List Char} (hp : Varies p p') (hq : Varies q q') :
    Varies (p ++ q) (p' ++ q') := by
  rcases hp with rfl | ⟨hp, hp'⟩
  · rcases hq with rfl | ⟨hq, hq'⟩
    · exact .inl rfl
    · exact .inr (by simp [hq, hq'])
  · exact .inr (by simp [hp, hp'])

theorem IsRun.any {g : List Char} (h : IsRun g) : g.any isSpaceOrTab = true := by
  obtain ⟨c, g, rfl⟩ := List.exists_cons_of_ne_nil h.1
  simp [h.2 c List.mem_cons_self]

namespace Respaced

/-- White space of any kind stands where white space stood. -/
theorem of_gap {p : Char → Bool} (hsub : ∀ c, isSpaceOrTab c = true → p c = true)
    (hquote : p '"' = false) {gap rest t : List Char} (hgap : ∀ c ∈ gap, p c = true)
    (hrest : ∀ c ∈ rest.head?, isSpaceOrTab c = false) (h : Respaced (gap ++ rest) t) :
    ∃ gap' rest', t = gap' ++ rest' ∧ (∀ c ∈ gap', p c = true) ∧ Varies gap gap' ∧
      Respaced rest rest' := by
  generalize hs : gap ++ rest = s at h
  induction h generalizing gap with
  | nil =>
    obtain ⟨rfl, rfl⟩ := List.append_eq_nil_iff.1 hs
    exact ⟨[], [], rfl, hgap, .inl rfl, .nil⟩
  | @run g g' cs cs' hg hg' h ih =>
    -- the run lies inside of the gap, as the rest does not start with a space or a tab
    obtain ⟨more, rfl, rfl⟩ : ∃ more, gap = g ++ more ∧ cs = more ++ rest := by
      rcases List.append_eq_append_iff.1 hs with ⟨more, rfl, rfl⟩ | ⟨more, rfl, rfl⟩
      · cases more with
        | nil => exact ⟨[], by simp, by simp⟩
        | cons c more =>
          have hc := hrest c rfl
          rw [hg.2 c (List.mem_append_right gap List.mem_cons_self)] at hc
          cases hc
      · exact ⟨more, rfl, rfl⟩
    obtain ⟨gap', rest', rfl, hgap', hvaries, hrest'⟩ :=
      ih (fun c hc => hgap c (List.mem_append_right g hc)) rfl
    refine ⟨g' ++ gap', rest', (List.append_assoc _ _ _).symm, ?_, ?_, hrest'⟩
    · intro c hc
      rcases List.mem_append.1 hc with hc | hc
      · exact hsub c (hg'.2 c hc)
      · exact hgap' c hc
    · exact Varies.append (.inr ⟨hg.any, hg'.any⟩) hvaries
  | @char c cs cs' hspace hno h ih =>
    cases gap with
    | nil =>
      rw [List.nil_append] at hs
      subst hs
      exact ⟨[], _, rfl, hgap, .inl rfl, .char hspace hno h⟩
    | cons d gap =>
      cases hs
      obtain ⟨hd, hgap⟩ := List.forall_mem_cons.1 hgap
      obtain ⟨gap', rest', rfl, hgap', hvaries, hrest'⟩ := ih hgap rfl
      exact ⟨c :: gap', rest', rfl, List.forall_mem_cons.2 ⟨hd, hgap'⟩,
        Varies.append (p := [c]) (.inl rfl) hvaries, hrest'⟩
  | literal hb h _ =>
    cases gap with
    | nil =>
      rw [List.nil_append] at hs
      subst hs
      exact ⟨[], _, rfl, hgap, .inl rfl, .literal hb h⟩
    | cons d gap =>
      obtain ⟨rfl, -⟩ := List.cons.inj hs
      rw [hgap '"' List.mem_cons_self] at hquote
      cases hquote
  | opened hb =>
    cases gap with
    | nil =>
      rw [List.nil_append] at hs
      subst hs
      exact ⟨[], _, rfl, hgap, .inl rfl, .opened hb⟩
    | cons d gap =>
      obtain ⟨rfl, -⟩ := List.cons.inj hs
      rw [hgap '"' List.mem_cons_self] at hquote
      cases hquote

theorem head {q : Char → Bool} (hq : q ' ' = q '\t') {cs cs' : List Char} (h : Respaced cs cs')
    (hcs : ∀ c ∈ cs.head?, q c = true) : ∀ c ∈ cs'.head?, q c = true := by
  cases h with
  | nil => exact hcs
  | run hg hg' _ =>
    obtain ⟨c, more, heq, hc⟩ := hg.head _
    obtain ⟨c', more', heq', hc'⟩ := hg'.head _
    rw [heq] at hcs
    rw [heq']
    rintro d ⟨⟩
    have hspace : ∀ {x}, isSpaceOrTab x = true → q x = q ' ' := by
      intro x hx
      rw [isSpaceOrTab, Bool.or_eq_true, beq_iff_eq, beq_iff_eq] at hx
      rcases hx with rfl | rfl
      · rfl
      · exact hq.symm
    rw [hspace hc', ← hspace hc]
    exact hcs c rfl
  | char _ _ _ => exact hcs
  | literal _ _ => exact hcs
  | opened _ => exact hcs

end Respaced

/-! ## Trimmed texts -/

section

variable (p : Char → Bool)

/-- A text without the characters of a class at its end. -/
def dropEnd (cs : List Char) : List Char := (cs.reverse.dropWhile p).reverse

theorem dropEnd_append (as bs : List Char) :
    dropEnd p (as ++ bs) = if dropEnd p bs = [] then dropEnd p as else as ++ dropEnd p bs := by
  unfold dropEnd
  rw [List.reverse_append, List.dropWhile_append]
  by_cases hnil : bs.reverse.dropWhile p = []
  · simp [hnil]
  · simp [hnil]

theorem dropEnd_of_all {cs : List Char} (h : ∀ c ∈ cs, p c = true) : dropEnd p cs = [] := by
  have hdrop : (cs.reverse ++ []).dropWhile p = [] := by
    rw [List.dropWhile_append_of_pos fun c hc => h c (List.mem_reverse.1 hc)]
    rfl
  rw [List.append_nil] at hdrop
  rw [dropEnd, hdrop, List.reverse_nil]

theorem dropEnd_subset {cs : List Char} : dropEnd p cs ⊆ cs := by
  intro c hc
  rw [dropEnd, List.mem_reverse] at hc
  exact List.mem_reverse.1 ((List.dropWhile_suffix p).mem hc)

end

namespace Respaced

/-- What stands behind is dropped on both sides or on none. -/
theorem dropEnd_front {p : Char → Bool} {cs cs' : List Char} (front front' : List Char)
    (h : Respaced (dropEnd p cs) (dropEnd p cs'))
    (hfront : Respaced (dropEnd p front) (dropEnd p front'))
    (happend : ∀ {xs ys : List Char}, Respaced xs ys → Respaced (front ++ xs) (front' ++ ys)) :
    Respaced (dropEnd p (front ++ cs)) (dropEnd p (front' ++ cs')) := by
  rw [dropEnd_append, dropEnd_append]
  by_cases hnil : dropEnd p cs = []
  · rw [hnil] at h
    rw [if_pos hnil, if_pos h.eq_nil]
    exact hfront
  · have hnil' : dropEnd p cs' ≠ [] := by
      intro hnil'
      rw [hnil'] at h
      exact hnil h.symm.eq_nil
    rw [if_neg hnil, if_neg hnil']
    exact happend h

section

variable {p : Char → Bool} (hsub : ∀ c, isSpaceOrTab c = true → p c = true) (hquote : p '"' = false)

include hsub hquote

theorem dropWhile {cs cs' : List Char} (h : Respaced cs cs') :
    Respaced (cs.dropWhile p) (cs'.dropWhile p) := by
  induction h with
  | nil => exact .nil
  | run hg hg' _ ih =>
    rw [List.dropWhile_append_of_pos fun c hc => hsub c (hg.2 c hc),
      List.dropWhile_append_of_pos fun c hc => hsub c (hg'.2 c hc)]
    exact ih
  | @char c cs cs' hspace hno h ih =>
    rw [List.dropWhile_cons, List.dropWhile_cons]
    split
    · exact ih
    · exact .char hspace hno h
  | literal hb h _ =>
    have hkept : ¬ p '"' = true := by simp [hquote]
    rw [List.dropWhile_cons_of_neg hkept, List.dropWhile_cons_of_neg hkept]
    exact .literal hb h
  | opened hb =>
    rw [List.dropWhile_cons_of_neg (by simp [hquote])]
    exact .opened hb

theorem dropEnd {cs cs' : List Char} (h : Respaced cs cs') :
    Respaced (dropEnd p cs) (dropEnd p cs') := by
  have hmark : Text.dropEnd p ['"'] = ['"'] := by simp [Text.dropEnd, hquote]
  induction h with
  | nil => exact .nil
  | run hg hg' _ ih =>
    refine dropEnd_front _ _ ih ?_ fun h => .run hg hg' h
    rw [dropEnd_of_all p fun c hc => hsub c (hg.2 c hc),
      dropEnd_of_all p fun c hc => hsub c (hg'.2 c hc)]
    exact .nil
  | @char c cs cs' hspace hno _ ih =>
    refine dropEnd_front [c] [c] ih ?_ fun h => .char hspace hno h
    by_cases hc : p c = true
    · rw [dropEnd_of_all p (by simpa using hc)]
      exact .nil
    · have hkept : Text.dropEnd p [c] = [c] := by simp [Text.dropEnd, hc]
      rw [hkept]
      exact .char hspace hno .nil
  | @literal body cs cs' hb _ ih =>
    have htext : ∀ more : List Char,
        '"' :: (body ++ '"' :: more) = '"' :: (body ++ ['"']) ++ more := by simp
    rw [htext cs, htext cs']
    refine dropEnd_front _ _ ih ?_ fun h => ?_
    · have hkept : Text.dropEnd p ('"' :: body ++ ['"']) = '"' :: body ++ ['"'] := by
        rw [dropEnd_append, hmark, if_neg (List.cons_ne_nil _ _)]
      rw [← List.cons_append, hkept]
      exact .literal hb .nil
    · rw [← htext, ← htext]
      exact .literal hb h
  | @opened body hb =>
    have hkept : Text.dropEnd p (['"'] ++ body) = '"' :: Text.dropEnd p body := by
      rw [dropEnd_append, hmark]
      split
      · rename_i hnil
        rw [hnil]
      · rfl
    rw [← List.singleton_append, hkept]
    exact .opened (hb.of_subset (dropEnd_subset p))

end

theorem trimBy {p : Char → Bool} (hsub : ∀ c, isSpaceOrTab c = true → p c = true)
    (hquote : p '"' = false) {cs cs' : List Char} (h : Respaced cs cs') :
    Respaced (trimBy p cs) (trimBy p cs') :=
  (h.dropWhile hsub hquote).dropEnd hsub hquote

end Respaced

end Text

/-! ## Lexemes of texts that differ in their spaces -/

open Text

namespace Lexeme

theorem isPhraseSpace_of_isSpaceOrTab (c : Char) (h : isSpaceOrTab c = true) :
    isPhraseSpace c = true := by
  simp only [isSpaceOrTab, Bool.or_eq_true, beq_iff_eq] at h
  rcases h with rfl | rfl <;> rfl

theorem solid_of_isStop {c : Char} (h : isStop c = false) :
    isSpaceOrTab c = false ∧ c ≠ '"' := by
  simp only [isStop, isPhraseSpace, Bool.or_eq_false_iff, beq_eq_false_iff_ne] at h
  simp [isSpaceOrTab, h]

theorem solid_of_isWordChar {c : Char} (h : isWordChar c = true) :
    isSpaceOrTab c = false ∧ c ≠ '"' :=
  solid_of_isStop (isStop_of_isWordChar h)

/-- A phrase is a phrase with any gaps between its words. -/
theorem Spells.respaced {ws : List (List Char)} {p rest t : List Char} (hp : Spells ws p)
    (h : Respaced (p ++ rest) t) :
    ∃ p' rest', t = p' ++ rest' ∧ Spells ws p' ∧ Varies p p' ∧ Respaced rest rest' := by
  induction hp generalizing t with
  | @last w hw =>
    obtain ⟨rest', rfl, hrest⟩ := h.of_solid fun c hc => solid_of_isWordChar (hw.2 c hc)
    exact ⟨w, rest', rfl, .last hw, .inl rfl, hrest⟩
  | @more w gap p ws hw hgap hp ih =>
    rw [List.append_assoc, List.append_assoc] at h
    obtain ⟨t, rfl, hmid⟩ := h.of_solid fun c hc => solid_of_isWordChar (hw.2 c hc)
    have hhead : ∀ c ∈ (p ++ rest).head?, isSpaceOrTab c = false := by
      obtain ⟨c, cs, heq, hc⟩ := hp.head rest
      rw [heq]
      rintro d ⟨⟩
      exact (solid_of_isWordChar hc).1
    obtain ⟨gap', t, rfl, hgap', hvaries, htail⟩ :=
      hmid.of_gap isPhraseSpace_of_isSpaceOrTab (by decide) hgap.2 hhead
    have hne : gap' ≠ [] := by
      rintro rfl
      rcases hvaries with heq | ⟨-, hany⟩
      · exact hgap.1 heq.symm
      · cases hany
    obtain ⟨p', rest', rfl, hp', hvaries', hrest⟩ := ih htail
    refine ⟨w ++ (gap' ++ p'), rest', ?_, .more hw ⟨hne, hgap'⟩ hp', ?_, hrest⟩
    · simp only [List.append_assoc]
    · exact Varies.append (.inl rfl) (hvaries.append hvaries')

theorem normalise_of_varies {ws : List (List Char)} {p p' : List Char} (hp : Spells ws p)
    (hp' : Spells ws p') (h : Varies p p') : normalise p' = normalise p := by
  rcases h with rfl | ⟨hany, hany'⟩
  · rfl
  · rw [normalise_spells hp, normalise_spells hp']
    unfold isSpaceOrTab at hany hany'
    rw [hany, hany']
    rfl

theorem atWordEnd_respaced {s t : List Char} (h : Respaced s t) (hs : atWordEnd s = true) :
    atWordEnd t = true := by
  rw [atWordEnd_iff] at hs ⊢
  have hhead := h.head (q := fun c => !isWordChar c) rfl (fun c hc => by simp [hs c hc])
  intro c hc
  simpa using hhead c hc

theorem anyPhraseLength?_respaced {s t : List Char} (h : Respaced s t)
    (hno : anyPhraseLength? s = none) : anyPhraseLength? t = none := by
  cases hsome : anyPhraseLength? t with
  | none => rfl
  | some n =>
    obtain ⟨ws, hws, p, rest, rfl, -, hp, hrest⟩ := anyPhraseLength?_some hsome
    obtain ⟨p', rest', rfl, hp', -, hrespaced⟩ := hp.respaced h.symm
    rw [anyPhraseLength?_spells hws hp' (atWordEnd_respaced hrespaced hrest)] at hno
    cases hno

theorem ordinaryLength?_respaced {c : Char} (hc : isStop c = false) {cs t : List Char}
    (h : Respaced (c :: cs) t) : ordinaryLength? t = ordinaryLength? (c :: cs) := by
  -- up to the first stop the texts are the same
  obtain ⟨p, rest, rfl, hp, hrest⟩ : ∃ p rest, cs = p ++ rest ∧ (∀ d ∈ p, isStop d = false) ∧
      Stops rest := by
    refine ⟨cs.takeWhile (!isStop ·), cs.dropWhile (!isStop ·),
      List.takeWhile_append_dropWhile.symm, fun d hd => by simpa using of_mem_takeWhile hd, ?_⟩
    intro d hd
    have hhead := List.head?_dropWhile_not (!isStop ·) cs
    rw [hd] at hhead
    simpa using hhead
  have hsolid : ∀ d ∈ c :: p, isSpaceOrTab d = false ∧ d ≠ '"' :=
    List.forall_mem_cons.2 ⟨solid_of_isStop hc, fun d hd => solid_of_isStop (hp d hd)⟩
  obtain ⟨rest', rfl, hrespaced⟩ := h.of_solid hsolid
  have hrest' : Stops rest' := hrespaced.head (by decide) hrest
  rw [ordinaryLength?_append hc hrest', ← List.cons_append, ordinaryLength?_append hc hrest]

/-- The lexeme at the head of a text, up to the gaps of a phrase. -/
theorem piece_respaced {p rest t : List Char} (hhead : ∀ c ∈ p.head?, isGap c = false)
    (hlen : lexemeLength? (p ++ rest) = some p.length) (h : Respaced (p ++ rest) t) :
    ∃ p' rest', t = p' ++ rest' ∧ Respaced rest rest' ∧ (∀ c ∈ p'.head?, isGap c = false) ∧
      lexemeLength? (p' ++ rest') = some p'.length ∧ normalise p' = normalise p := by
  cases piece_of_length hhead hlen with
  | phrase hws hp hrest =>
    obtain ⟨p', rest', rfl, hp', hvaries, hrespaced⟩ := hp.respaced h
    refine ⟨p', rest', rfl, hrespaced, hp'.head_solid, ?_, normalise_of_varies hp hp' hvaries⟩
    rw [lexemeLength?_eq, anyPhraseLength?_spells hws hp' (atWordEnd_respaced hrespaced hrest)]
    rfl
  | @literal body hb hp =>
    subst hp
    have htext : ∀ more : List Char,
        '"' :: (body ++ ['"']) ++ more = '"' :: (body ++ '"' :: more) := by simp
    rw [htext] at h
    obtain ⟨rest', rfl, hrespaced⟩ := h.of_literal hb
    refine ⟨'"' :: (body ++ ['"']), rest', (htext rest').symm, hrespaced, hhead, ?_, rfl⟩
    rw [htext, lexemeLength?_literal hb]
    simp
  | @opened body hb hp hrest =>
    subst hp hrest
    rw [List.append_nil] at h
    rw [h.of_opened hb]
    exact ⟨'"' :: body, [], by simp, .nil, hhead, hlen, rfl⟩
  | @ordinary c cs hc hp hno hord =>
    subst hp
    obtain ⟨hsolid, -, -⟩ := hord.piece hc
    obtain ⟨rest', rfl, hrespaced⟩ := h.of_solid fun d hd => solid_of_isStop (hsolid d hd)
    refine ⟨c :: cs, rest', rfl, hrespaced, hhead, ?_, rfl⟩
    rw [lexemeLength?_eq, hno] at hlen
    rw [lexemeLength?_eq, anyPhraseLength?_respaced h hno, ordinaryLength?_respaced hc h]
    exact hlen

theorem Scans.gaps {gap rest : List Char} {ps : List (List Char)}
    (hgap : ∀ c ∈ gap, isGap c = true) (h : Scans rest ps) : Scans (gap ++ rest) ps := by
  induction gap with
  | nil => exact h
  | cons c gap ih =>
    obtain ⟨hc, hgap⟩ := List.forall_mem_cons.1 hgap
    exact .gap hc (ih hgap)

/-- Texts that differ in their runs of spaces and tabs have the same lexemes. -/
theorem Scans.respaced {s t : List Char} {ps : List (List Char)} (hs : Scans s ps)
    (h : Respaced s t) : ∃ ps', Scans t ps' ∧ ps'.map normalise = ps.map normalise := by
  induction hs generalizing t with
  | nil => exact ⟨[], h.eq_nil ▸ .nil, rfl⟩
  | @gap c cs ps hc _ ih =>
    by_cases hspace : isSpaceOrTab c = true
    · rcases h.of_space hspace with hmore | ⟨g, t, hg, rfl, hmore⟩
      · exact ih hmore
      · obtain ⟨ps', hscans, hps⟩ := ih hmore
        refine ⟨ps', .gaps (fun d hd => ?_) hscans, hps⟩
        exact isGap_of_isPhraseSpace (isPhraseSpace_of_isSpaceOrTab d (hg.2 d hd))
    · have hquote : c ≠ '"' := by
        rintro rfl
        cases hc
      obtain ⟨t, rfl, hmore⟩ := h.of_cons (by simpa using hspace) hquote
      obtain ⟨ps', hscans, hps⟩ := ih hmore
      exact ⟨ps', .gap hc hscans, hps⟩
  | piece hhead hlen _ ih =>
    obtain ⟨p', rest', rfl, hrest, hhead', hlen', hnormal⟩ := piece_respaced hhead hlen h
    obtain ⟨ps', hscans, hps⟩ := ih hrest
    refine ⟨p' :: ps', .piece hhead' hlen' hscans, ?_⟩
    rw [List.map_cons, List.map_cons, hnormal, hps]

end Lexeme

theorem tokenize_respaced {s t : String} (h : Respaced s.toList t.toList) :
    tokenize t = tokenize s := by
  obtain ⟨ps, hs⟩ := Lexeme.exists_scans s.toList
  obtain ⟨ps', ht, hps⟩ := hs.respaced h
  calc tokenize t = ps'.map Lexeme.normalise := ht.texts 0
    _ = ps.map Lexeme.normalise := hps
    _ = tokenize s := (hs.texts 0).symm

end Courtesy
