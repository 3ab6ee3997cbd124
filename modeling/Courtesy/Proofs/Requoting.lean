import Mathlib.Data.List.Forall2
import Courtesy.Proofs.Hints
import Courtesy.Proofs.Spacing

/-!
# Scanning texts that differ in their literals

Quotes part a text for both scanners: what stands in front of a quote is scanned as if it stood
alone (`Lexeme.Scans.append_quote`, `Expression.atomsFrom_append_quote`), and a literal is one
piece. So texts that differ in the contents of their literals have the same lexemes and the same
atoms, up to the literals among them (`tokenize_requoted`, `Expression.cut_requoted`).
-/

namespace Courtesy

open Text List

/-! ## Texts of tokens -/

namespace Literal

/-- The string literal with a given content. -/
def ofContent (body : List Char) : String := String.ofList ('"' :: (body ++ ['"']))

variable {body : List Char}

theorem toList_ofContent (body : List Char) : (ofContent body).toList = '"' :: (body ++ ['"']) :=
  String.toList_ofList

theorem head?_ofContent (body : List Char) : (ofContent body).toList.head? = some '"' := by
  rw [toList_ofContent, List.head?_cons]

theorem ofContent_ne (body : List Char) {word : String} (h : word.toList.head? ≠ some '"') :
    ofContent body ≠ word := by
  rintro rfl
  exact h (head?_ofContent body)

theorem isString_ofContent (h : '\n' ∉ body) : isString (ofContent body) = true := by
  have hlast : (body ++ ['"']).getLast? = some '"' := List.getLast?_concat
  have hinner : (body ++ ['"']).dropLast = body := List.dropLast_concat
  simp only [isString, toList_ofContent, hlast, hinner, Bool.and_eq_true, List.all_eq_true]
  refine ⟨rfl, fun c hc => ?_⟩
  rw [bne_iff_ne]
  rintro rfl
  exact h hc

theorem isNumber_ofContent (body : List Char) : isNumber (ofContent body) = false := by
  simp [isNumber, numberShape?, unsigned, toList_ofContent]

theorem isIdentifier_ofContent (body : List Char) : isIdentifier (ofContent body) = false := by
  simp [isIdentifier, isWordStart, toList_ofContent]

theorem isBoolean_ofContent (body : List Char) : Vocabulary.isBoolean (ofContent body) = false := by
  have htrue : ofContent body ≠ "true" := ofContent_ne body (by decide)
  have hfalse : ofContent body ≠ "false" := ofContent_ne body (by decide)
  simp [Vocabulary.isBoolean, htrue, hfalse]

theorem isEquality_ofContent (body : List Char) :
    Vocabulary.isEquality (ofContent body) = false := by
  have hequal : ofContent body ≠ "equal to" := ofContent_ne body (by decide)
  have hdifferent : ofContent body ≠ "different from" := ofContent_ne body (by decide)
  simp [Vocabulary.isEquality, hequal, hdifferent]

theorem lookup_ofContent {α : Type} {table : List (String × α)}
    (h : ∀ entry ∈ table, entry.1.toList.head? ≠ some '"') (body : List Char) :
    table.lookup (ofContent body) = none := by
  cases hlookup : table.lookup (ofContent body) with
  | none => rfl
  | some value =>
    exact absurd (head?_ofContent body) (h (ofContent body, value) (mem_of_lookup hlookup))

theorem isArithmetic_ofContent (body : List Char) :
    Vocabulary.isArithmetic (ofContent body) = false := by
  rw [Vocabulary.isArithmetic, lookup_ofContent (by decide)]
  rfl

theorem isRelational_ofContent (body : List Char) :
    Vocabulary.isRelational (ofContent body) = false := by
  rw [Vocabulary.isRelational, lookup_ofContent (by decide)]
  rfl

theorem classify_ofContent (h : '\n' ∉ body) : classify (ofContent body) = .string := by
  have hname : ValueType.isName (ofContent body) = false := by
    rw [Bool.eq_false_iff]
    intro hname
    obtain ⟨t, ht⟩ := Option.isSome_iff_exists.1 hname
    have heads : ∀ t ∈ ValueType.declared, t.name.toList.head? ≠ some '"' := by decide +kernel
    have heq : t.name = ofContent body := by simpa using List.find?_some ht
    exact ofContent_ne body (heads t (List.mem_of_find?_eq_some ht)) heq.symm
  rw [classify, lookup_ofContent (by decide +kernel)]
  simp only [hname, isRelational_ofContent, isNumber_ofContent, isString_ofContent h,
    Bool.false_eq_true, if_false, if_true]

theorem role?_ofContent (h : '\n' ∉ body) : Expression.role? (ofContent body) = some .string := by
  unfold Expression.role?
  rw [isNumber_ofContent, isString_ofContent h, if_neg Bool.false_ne_true, if_pos rfl]

end Literal

namespace Text

/-- The same text without quotes, or two string literals that may take each other's place. -/
inductive Swapped : String → String → Prop
  | plain {t : String} (h : Plain t.toList) : Swapped t t
  | literal {body body' : List Char} (h : Exchanged body body') :
      Swapped (Literal.ofContent body) (Literal.ofContent body')

namespace Swapped

open Literal

variable {t t' : String} (h : Swapped t t')

include h

theorem requoted : Requoted t.toList t'.toList := by
  cases h with
  | plain h => exact .plain h
  | literal h =>
    rw [toList_ofContent, toList_ofContent]
    exact .literal (p := []) plain_nil h (.plain plain_nil)

theorem eq_of_isString (hs : isString t = false) : t' = t := by
  cases h with
  | plain _ => rfl
  | literal h =>
    rw [isString_ofContent h.oneLine] at hs
    cases hs

theorem eq_of_isNumber (hs : isNumber t = true) : t' = t := by
  cases h with
  | plain _ => rfl
  | literal _ =>
    rw [isNumber_ofContent] at hs
    cases hs

theorem eq_of_isIdentifier (hs : isIdentifier t = true) : t' = t := by
  cases h with
  | plain _ => rfl
  | literal _ =>
    rw [isIdentifier_ofContent] at hs
    cases hs

theorem isString_eq : isString t' = isString t := by
  cases h with
  | plain _ => rfl
  | literal h => rw [isString_ofContent h.oneLine, isString_ofContent h.oneLine']

theorem isNumber_eq : isNumber t' = isNumber t := by
  cases h with
  | plain _ => rfl
  | literal _ => rw [isNumber_ofContent, isNumber_ofContent]

theorem isIdentifier_eq : isIdentifier t' = isIdentifier t := by
  cases h with
  | plain _ => rfl
  | literal _ => rw [isIdentifier_ofContent, isIdentifier_ofContent]

theorem isRelational_eq : Vocabulary.isRelational t' = Vocabulary.isRelational t := by
  cases h with
  | plain _ => rfl
  | literal _ => rw [isRelational_ofContent, isRelational_ofContent]

theorem isArithmetic_eq : Vocabulary.isArithmetic t' = Vocabulary.isArithmetic t := by
  cases h with
  | plain _ => rfl
  | literal _ => rw [isArithmetic_ofContent, isArithmetic_ofContent]

theorem isEquality_eq : Vocabulary.isEquality t' = Vocabulary.isEquality t := by
  cases h with
  | plain _ => rfl
  | literal _ => rw [isEquality_ofContent, isEquality_ofContent]

theorem beq_eq {word : String} (hword : word.toList.head? ≠ some '"') :
    (t' == word) = (t == word) := by
  cases h with
  | plain _ => rfl
  | literal _ =>
    rw [beq_eq_false_iff_ne.2 (ofContent_ne _ hword), beq_eq_false_iff_ne.2 (ofContent_ne _ hword)]

theorem eq_word_iff {word : String} (hword : word.toList.head? ≠ some '"') :
    t' = word ↔ t = word := by
  rw [← beq_iff_eq, h.beq_eq hword, beq_iff_eq]

theorem role?_eq : Expression.role? t' = Expression.role? t := by
  cases h with
  | plain _ => rfl
  | literal h => rw [role?_ofContent h.oneLine, role?_ofContent h.oneLine']

theorem classify_eq : classify t' = classify t := by
  cases h with
  | plain _ => rfl
  | literal h => rw [classify_ofContent h.oneLine, classify_ofContent h.oneLine']

end Swapped

theorem requoted_spaced {ts ts' : List String} (h : Forall₂ Swapped ts ts') :
    Requoted (spaced ts).toList (spaced ts').toList := by
  induction h with
  | nil => exact .plain plain_nil
  | @cons t t' ts ts' ht hts ih =>
    cases hts with
    | nil =>
      rw [spaced, spaced, String.intercalate_singleton, String.intercalate_singleton]
      exact ht.requoted
    | cons hu hts =>
      rw [spaced, spaced, toList_intercalate_cons_cons, toList_intercalate_cons_cons]
      exact ht.requoted.append (ih.plain_append (p := " ".toList) (by decide))

end Text

/-! ## Lexemes -/

namespace Lexeme

variable {cs x : List Char}

theorem stops_quote (x : List Char) : Stops ('"' :: x) := by
  rintro c ⟨⟩
  rfl

theorem plain_of_spells {ws : List (List Char)} {p : List Char} (h : Spells ws p) : Plain p := by
  have hplain : ∀ {q : Char → Bool}, q '"' = false → ∀ {w : List Char}, (∀ c ∈ w, q c = true) →
      Plain w := by
    intro q hq w hw hm
    rw [hw '"' hm] at hq
    cases hq
  induction h with
  | last hw => exact hplain (q := isWordChar) (by decide) hw.2
  | more hw hgap _ ih =>
    exact plain_append.2 ⟨hplain (q := isWordChar) (by decide) hw.2,
      plain_append.2 ⟨hplain (q := isPhraseSpace) (by decide) hgap.2, ih⟩⟩

theorem anyPhraseLength?_append_quote (cs x : List Char) :
    anyPhraseLength? (cs ++ '"' :: x) = anyPhraseLength? cs := by
  apply Option.ext
  intro n
  constructor
  · intro h
    obtain ⟨ws, hws, p, rest, heq, rfl, hp, hrest⟩ := anyPhraseLength?_some h
    rcases List.append_eq_append_iff.1 heq with ⟨more, rfl, hmore⟩ | ⟨more, rfl, rfl⟩
    · cases more with
      | nil =>
        rw [List.append_nil] at hp ⊢
        have hend : atWordEnd [] = true := rfl
        have hspelled := anyPhraseLength?_spells hws hp hend
        rwa [List.append_nil] at hspelled
      | cons d more =>
        -- the phrase would hold the quote
        obtain ⟨rfl, -⟩ := List.cons.inj hmore
        exact absurd (List.mem_append_right cs List.mem_cons_self) (plain_of_spells hp)
    · rw [atWordEnd_append (stops_quote x).breaks] at hrest
      exact anyPhraseLength?_spells hws hp hrest
  · intro h
    obtain ⟨ws, hws, p, rest, rfl, rfl, hp, hrest⟩ := anyPhraseLength?_some h
    rw [List.append_assoc]
    refine anyPhraseLength?_spells hws hp ?_
    rwa [atWordEnd_append (stops_quote x).breaks]

theorem lexemeLength?_append_quote {c : Char} (hc : isStop c = false) (cs x : List Char) :
    lexemeLength? (c :: cs ++ '"' :: x) = lexemeLength? (c :: cs) := by
  rw [lexemeLength?_eq, lexemeLength?_eq, anyPhraseLength?_append_quote,
    ordinaryLength?_append hc (stops_quote x)]

namespace Scans

variable {ps qs : List (List Char)}

/-- What stands in front of a quote is scanned as if it stood alone. -/
theorem append_quote (h : Scans cs ps) (hp : Plain cs) (hx : Scans ('"' :: x) qs) :
    Scans (cs ++ '"' :: x) (ps ++ qs) := by
  induction h with
  | nil => exact hx
  | gap hc _ ih => exact .gap hc (ih (plain_cons.1 hp).2)
  | @piece p rest ps hhead hlen _ ih =>
    obtain ⟨hplain, hrest⟩ := plain_append.1 hp
    rw [List.append_assoc]
    refine .piece hhead ?_ (ih hrest)
    cases p with
    | nil => exact absurd (lexemeLength?_takes hlen).1 (Nat.lt_irrefl 0)
    | cons c p =>
      have hstop : isStop c = false := by
        have hgap := hhead c rfl
        rw [isGap, Bool.or_eq_false_iff] at hgap
        rw [isStop, hgap.1, Bool.false_or, beq_eq_false_iff_ne]
        exact (plain_cons.1 hplain).1
      rw [← List.append_assoc, List.cons_append, lexemeLength?_append_quote hstop]
      exact hlen

theorem literal {body rest : List Char} (hb : Plain body) (h : Scans rest ps) :
    Scans ('"' :: (body ++ '"' :: rest)) (('"' :: (body ++ ['"'])) :: ps) := by
  have htext : '"' :: (body ++ '"' :: rest) = '"' :: (body ++ ['"']) ++ rest := by simp
  have hlen := lexemeLength?_literal hb rest
  rw [htext] at hlen ⊢
  refine .piece ?_ (hlen.trans (by simp)) h
  rintro c ⟨⟩
  rfl

theorem plain (h : Scans cs ps) (hp : Plain cs) : ∀ p ∈ ps, Plain p := by
  induction h with
  | nil => simp
  | gap _ _ ih => exact ih (plain_cons.1 hp).2
  | piece _ _ _ ih =>
    exact List.forall_mem_cons.2 ⟨(plain_append.1 hp).1, ih (plain_append.1 hp).2⟩

end Scans

theorem normalise_literal (body : List Char) :
    normalise ('"' :: (body ++ ['"'])) = Literal.ofContent body := by
  rw [← String.toList_inj, normalise_quote, Literal.toList_ofContent]

/-- The pieces behind the literals of a text: there are none, or they start with a quote. -/
inductive Rest : List Char → List (List Char) → Prop
  | none : Rest [] []
  | quote {cs : List Char} {rs : List (List Char)} (h : Scans ('"' :: cs) rs) : Rest ('"' :: cs) rs

theorem Rest.scans {p : List Char} {ps rs : List (List Char)} (hx : Rest x rs) (hp : Plain p)
    (h : Scans p ps) : Scans (p ++ x) (ps ++ rs) := by
  cases hx with
  | none => rwa [List.append_nil, List.append_nil]
  | quote hx => exact h.append_quote hp hx

/-- The pieces of texts that differ in the contents of their literals. -/
theorem exists_scans_requoted {a b : List Char} {rs : List (List Char)} (h : Requoted a b)
    (hx : Rest x rs) :
    ∃ ps qs, Scans (a ++ x) (ps ++ rs) ∧ Scans (b ++ x) (qs ++ rs) ∧
      Forall₂ Swapped (ps.map normalise) (qs.map normalise) := by
  have hfront : ∀ {p : List Char} {ps : List (List Char)}, Plain p → Scans p ps →
      Forall₂ Swapped (ps.map normalise) (ps.map normalise) := by
    intro p ps hp hps
    rw [forall₂_same]
    intro t ht
    obtain ⟨q, hq, rfl⟩ := List.mem_map.1 ht
    exact .plain (normalise_plain (hps.plain hp q hq))
  induction h with
  | @plain p hp =>
    obtain ⟨ps, hps⟩ := exists_scans p
    exact ⟨ps, ps, hx.scans hp hps, hx.scans hp hps, hfront hp hps⟩
  | @literal p body body' rest rest' hp hb _ ih =>
    obtain ⟨ps, hps⟩ := exists_scans p
    obtain ⟨qs, qs', hqs, hqs', hrest⟩ := ih
    refine ⟨ps ++ ('"' :: (body ++ ['"'])) :: qs, ps ++ ('"' :: (body' ++ ['"'])) :: qs', ?_, ?_,
      ?_⟩
    · simp only [List.append_assoc, List.cons_append]
      exact hps.append_quote hp (hqs.literal hb.plain)
    · simp only [List.append_assoc, List.cons_append]
      exact hps.append_quote hp (hqs'.literal hb.plain')
    · simp only [List.map_append, List.map_cons, normalise_literal]
      exact rel_append (hfront hp hps) (.cons (.literal hb) hrest)

end Lexeme

theorem tokenize_requoted {s t : String} (h : Requoted s.toList t.toList) :
    Forall₂ Swapped (tokenize s) (tokenize t) := by
  obtain ⟨ps, qs, hps, hqs, hswapped⟩ := Lexeme.exists_scans_requoted h .none
  rw [List.append_nil, List.append_nil] at hps hqs
  have hs : tokenize s = ps.map Lexeme.normalise := hps.texts 0
  have ht : tokenize t = qs.map Lexeme.normalise := hqs.texts 0
  rwa [hs, ht]

/-- A quote without a partner ends the literals; the lexemes from there on are the same. -/
theorem exists_tokenize_opened {s t : String} {a b x : List Char} (h : Requoted a b)
    (hs : s.toList = a ++ '"' :: x) (ht : t.toList = b ++ '"' :: x) :
    ∃ ts ts' us, tokenize s = ts ++ us ∧ tokenize t = ts' ++ us ∧ Forall₂ Swapped ts ts' := by
  obtain ⟨rs, hrs⟩ := Lexeme.exists_scans ('"' :: x)
  obtain ⟨ps, qs, hps, hqs, hswapped⟩ := Lexeme.exists_scans_requoted h (.quote hrs)
  rw [← hs] at hps
  rw [← ht] at hqs
  refine ⟨ps.map Lexeme.normalise, qs.map Lexeme.normalise, rs.map Lexeme.normalise, ?_, ?_,
    hswapped⟩
  · rw [← List.map_append]
    exact hps.texts 0
  · rw [← List.map_append]
    exact hqs.texts 0

/-! ## Atoms -/

namespace Expression

open Lexeme in
theorem numberLength?_append_quote (c : Char) (cs x : List Char) :
    numberLength? (c :: cs ++ '"' :: x) = numberLength? (c :: cs) := by
  have hstops := stops_quote x
  have hhead : (c :: cs ++ '"' :: x).head? = (c :: cs).head? := rfl
  unfold numberLength?
  rw [hhead]
  have hone : (if (c :: cs).head? = some '-' then 1 else 0) ≤ (c :: cs).length := by
    rw [List.length_cons]
    split <;> omega
  generalize (if (c :: cs).head? = some '-' then 1 else 0) = sign at hone ⊢
  have hwhole := length_digits ((c :: cs).drop sign)
  rw [List.length_drop] at hwhole
  dsimp only
  rw [List.drop_append_of_le_length hone, digitCount_append hstops.breaks,
    List.drop_append_of_le_length (by omega), fractionCount_append hstops.breaks]

theorem numberLength?_quote (cs : List Char) : numberLength? ('"' :: cs) = none := by
  simp [numberLength?, Lexeme.digitCount]

theorem atomLength?_append_quote {c : Char} (hc : c ≠ '"') (cs x : List Char) :
    atomLength? (c :: cs ++ '"' :: x) = atomLength? (c :: cs) := by
  have hclosed : ∀ more : List Char, Lexeme.closedStringLength? (c :: more) = none := by
    intro more
    simp [Lexeme.closedStringLength?, hc]
  have hnumber := numberLength?_append_quote c cs x
  rw [List.cons_append] at hnumber ⊢
  rw [atomLength?, atomLength?, hnumber, hclosed, hclosed, Lexeme.wordLength?, Lexeme.wordLength?,
    Lexeme.takeWhile_append_stops (Lexeme.stops_quote x) (by decide)]
  rfl

theorem atomLength?_literal {body : List Char} (hb : Plain body) (rest : List Char) :
    atomLength? ('"' :: (body ++ '"' :: rest)) = some (body.length + 2) := by
  rw [atomLength?, numberLength?_quote, Lexeme.closedStringLength?_literal hb]
  rfl

/-- An atom of a plain text lies inside of the text. -/
theorem atomLength?_le {c : Char} (hc : c ≠ '"') {cs : List Char} {n : Nat}
    (h : atomLength? (c :: cs) = some n) : n ≤ (c :: cs).length := by
  -- with a quote behind the text the atom is the same, and it cannot hold the quote
  have htakes := (atomLength?_takes ((atomLength?_append_quote hc cs []).trans h)).2
  cases htakes with
  | plain hp =>
    apply Nat.le_of_not_lt
    intro hlt
    rw [List.take_of_length_le (by rw [List.length_append]; exact hlt)] at hp
    exact hp (List.mem_append_right (c :: cs) List.mem_cons_self)
  | literal _ hcs _ => exact absurd (List.cons.inj hcs).1 hc
  | opened _ hcs => exact absurd (List.cons.inj hcs).1 hc

/-- What stands in front of a quote is cut as if it stood alone. -/
theorem atomsFrom_append_quote {cs : List Char} (hp : Plain cs) (x : List Char) :
    atomsFrom 0 (cs ++ '"' :: x) = atomsFrom 0 cs ++ atomsFrom 0 ('"' :: x) := by
  induction hlen : cs.length using Nat.strongRecOn generalizing cs with
  | ind len ih =>
    cases cs with
    | nil => rfl
    | cons c cs =>
      obtain ⟨hc, hcs⟩ := plain_cons.1 hp
      have hatom := atomLength?_append_quote hc cs x
      have hgap := ih cs.length (by simp [← hlen]) hcs rfl
      rw [List.cons_append] at hatom ⊢
      rw [atomsFrom, atomsFrom, hatom]
      cases ha : atomLength? (c :: cs) with
      | none => exact hgap
      | some n =>
        cases n with
        | zero => exact hgap
        | succ n =>
          have hle : n ≤ cs.length := Nat.le_of_succ_le_succ (atomLength?_le hc ha)
          dsimp only
          rw [atomsFrom_skip, atomsFrom_skip n cs, List.drop_append_of_le_length hle,
            ih (cs.drop n).length ?_ (hcs.of_subset (List.drop_subset n cs)) rfl,
            List.take_succ_cons, List.take_append_of_le_length hle]
          · rfl
          · rw [← hlen, List.length_drop, List.length_cons]
            omega

theorem atomsFrom_literal {body : List Char} (hb : Plain body) (rest : List Char) :
    atomsFrom 0 ('"' :: (body ++ '"' :: rest)) =
      ('"' :: (body ++ ['"'])) :: atomsFrom 0 rest := by
  have htext : body ++ '"' :: rest = (body ++ ['"']) ++ rest := by simp
  have hlen : body.length + 1 = (body ++ ['"']).length := by simp
  rw [atomsFrom, atomLength?_literal hb]
  dsimp only
  rw [atomsFrom_skip, htext, hlen, List.drop_left, List.take_succ_cons, List.take_left]

theorem plain_atoms {cs : List Char} (hp : Plain cs) : ∀ p ∈ atomsFrom 0 cs, Plain p := by
  have hcut := atoms_cut cs
  generalize atomsFrom 0 cs = ps at hcut ⊢
  induction hcut with
  | nil => simp
  | gap _ _ ih => exact ih (plain_cons.1 hp).2
  | plain _ _ ih =>
    exact List.forall_mem_cons.2 ⟨(plain_append.1 hp).1, ih (plain_append.1 hp).2⟩
  | literal _ _ _ => exact absurd rfl (plain_cons.1 hp).1
  | opened _ _ _ => exact absurd rfl (plain_cons.1 hp).1

theorem atoms_requoted {a b : List Char} (h : Requoted a b) :
    Forall₂ Swapped ((atomsFrom 0 a).map String.ofList) ((atomsFrom 0 b).map String.ofList) := by
  have hfront : ∀ {p : List Char}, Plain p →
      Forall₂ Swapped ((atomsFrom 0 p).map String.ofList) ((atomsFrom 0 p).map String.ofList) := by
    intro p hp
    rw [forall₂_same]
    intro t ht
    obtain ⟨q, hq, rfl⟩ := List.mem_map.1 ht
    exact .plain (String.toList_ofList ▸ plain_atoms hp q hq)
  induction h with
  | plain hp => exact hfront hp
  | literal hp hb _ ih =>
    rw [atomsFrom_append_quote hp, atomsFrom_append_quote hp, atomsFrom_literal hb.plain,
      atomsFrom_literal hb.plain']
    simp only [List.map_append, List.map_cons]
    exact rel_append (hfront hp) (.cons (.literal hb) ih)

theorem cut_requoted {s t : String} (h : Requoted s.toList t.toList) :
    Forall₂ Swapped (cut s) (cut t) :=
  atoms_requoted (h.respace false)

end Expression

/-! ## Trimmed texts -/

namespace Text

variable {p : Char → Bool} {a b cs : List Char}

theorem dropWhile_append_quote (hq : p '"' = false) (a b : List Char) :
    (a ++ '"' :: b).dropWhile p = a.dropWhile p ++ '"' :: b := by
  induction a with
  | nil => simp [hq]
  | cons c a ih =>
    rw [List.cons_append, List.dropWhile_cons, List.dropWhile_cons, ih]
    split <;> rfl

namespace Requoted

theorem dropWhile (hq : p '"' = false) (h : Requoted a b) :
    Requoted (a.dropWhile p) (b.dropWhile p) := by
  cases h with
  | plain ha => exact .plain (ha.of_subset (List.dropWhile_suffix p).subset)
  | literal ha hb h =>
    rw [dropWhile_append_quote hq, dropWhile_append_quote hq]
    exact .literal (ha.of_subset (List.dropWhile_suffix p).subset) hb h

theorem dropEnd (hq : p '"' = false) (h : Requoted a b) :
    Requoted (dropEnd p a) (dropEnd p b) := by
  induction h with
  | plain ha => exact .plain (ha.of_subset (dropEnd_subset p))
  | @literal q body body' rest rest' hp hb _ ih =>
    have hkept : ∀ inner more : List Char, Text.dropEnd p (q ++ '"' :: (inner ++ '"' :: more)) =
        q ++ '"' :: (inner ++ '"' :: Text.dropEnd p more) := by
      intro inner more
      have hmark : Text.dropEnd p ['"'] = ['"'] := by simp [Text.dropEnd, hq]
      have hfront : Text.dropEnd p (q ++ '"' :: inner ++ ['"']) = q ++ '"' :: inner ++ ['"'] := by
        rw [dropEnd_append, hmark, if_neg (List.cons_ne_nil _ _)]
      have htext : ∀ more : List Char,
          q ++ '"' :: (inner ++ '"' :: more) = q ++ '"' :: inner ++ ['"'] ++ more := by simp
      rw [htext, htext, dropEnd_append, hfront]
      split
      · rename_i hnil
        rw [hnil, List.append_nil]
      · rfl
    rw [hkept, hkept]
    exact .literal hp hb ih

end Requoted

theorem trim_requoted {s t : String} (h : Requoted s.toList t.toList) :
    Requoted (trim s).toList (trim t).toList := by
  rw [trim, trim, String.toList_ofList, String.toList_ofList]
  exact (h.dropWhile (by decide)).dropEnd (by decide)

theorem Closed.of_append (ha : Closed a) (h : Closed (a ++ b)) : Closed b := by
  induction ha with
  | plain hp => exact h.of_plain_append hp
  | literal hp hb _ ih =>
    rw [List.append_assoc, List.cons_append, List.append_assoc, List.cons_append] at h
    exact ih ((h.of_plain_append hp).of_literal_append hb)

theorem closed_of_trimBy (hq : p '"' = false) (h : Closed (trimBy p cs)) : Closed cs := by
  have hplain : ∀ {xs : List Char}, (∀ c ∈ xs, p c = true) → Closed xs := by
    intro xs hxs
    refine .plain fun hm => ?_
    rw [hxs '"' hm] at hq
    cases hq
  have hend : Closed (cs.dropWhile p) := by
    have hcut := List.takeWhile_append_dropWhile (p := p) (l := (cs.dropWhile p).reverse)
    rw [← List.reverse_inj, List.reverse_append, List.reverse_reverse] at hcut
    rw [← hcut]
    exact h.append (hplain fun c hc => Lexeme.of_mem_takeWhile (List.mem_reverse.1 hc))
  rw [← List.takeWhile_append_dropWhile (p := p) (l := cs)]
  exact (hplain fun c hc => Lexeme.of_mem_takeWhile hc).append hend

theorem Cut.closed {gap : Char → Bool} {ps : List (List Char)} (h : Cut gap cs ps)
    (hq : gap '"' = false) (hw : ∀ p ∈ ps, Whole p) : Closed cs := by
  induction h with
  | nil => exact .plain plain_nil
  | @gap c cs ps hc _ ih =>
    have hne : c ≠ '"' := by
      rintro rfl
      rw [hq] at hc
      cases hc
    exact Closed.append (a := [c]) (.plain (plain_cons.2 ⟨hne, plain_nil⟩)) (ih hw)
  | plain hp _ ih => exact Closed.append (.plain hp) (ih (List.forall_mem_cons.1 hw).2)
  | literal hb _ ih => exact .literal (p := []) plain_nil hb (ih (List.forall_mem_cons.1 hw).2)
  | opened hp _ _ =>
    exact absurd (List.forall_mem_cons.1 hw).1.closed
      (not_closed_quote_plain (plain_append.1 hp).1)

end Text

/-! ## Tokens -/

namespace Token

/-- A line in which a quote has no partner has no tokens. -/
theorem ofLine_of_not_closed {text : String} (h : ¬ Closed text.toList) :
    ∃ l, ofLine text = .error l := by
  cases hl : ofLine text with
  | error l => exact ⟨l, rfl⟩
  | ok ts =>
    refine absurd (closed_of_trimBy (p := isBlank) (by decide) ?_) h
    obtain ⟨ps, hcut, hps⟩ := tokenize_cut (trim text)
    rw [trim, String.toList_ofList] at hcut
    refine hcut.closed (by decide) fun p hp => ?_
    rcases hcut.piece p hp with hwhole | ⟨r, hr, rfl⟩
    · exact hwhole
    · have hmem : Lexeme.normalise ('"' :: r) ∈ texts ts := by
        rw [(mapM_ofLexeme_ok hl).1]
        have := List.mem_map_of_mem (f := Lexeme.normalise) hp
        rwa [← hps] at this
      obtain ⟨t, ht, htext⟩ := List.mem_map.1 hmem
      have htext : t.text.toList = '"' :: r := by rw [htext, Lexeme.normalise_quote]
      rcases (sound_of_ofLine hl t ht).shape with ⟨-, body, -, hbody⟩ | ⟨-, hplain⟩
      · rw [htext] at hbody
        cases hbody
        exact absurd (List.mem_append_right body List.mem_cons_self) hr
      · rw [htext] at hplain
        exact absurd rfl (plain_cons.1 hplain).1

/-- Tokens of one kind that differ at most in the content of a string literal, and in their columns.
-/
structure Swapped (t t' : Token) : Prop where
  kind : t'.kind = t.kind
  text : Text.Swapped t.text t'.text
  valid : t.kind = classify t.text

theorem Swapped.text_eq {t t' : Token} (h : t.Swapped t') (hk : t.kind ≠ .string) :
    t'.text = t.text := by
  obtain ⟨-, htext, hvalid⟩ := h
  generalize t.text = s at htext hvalid ⊢
  generalize t'.text = s' at htext ⊢
  cases htext with
  | plain _ => rfl
  | literal hb =>
    rw [Literal.classify_ofContent hb.oneLine] at hvalid
    exact absurd hvalid hk

theorem requoted_join {ts ts' : List Token} (h : Forall₂ Swapped ts ts') :
    Requoted (join ts).toList (join ts').toList := by
  refine requoted_spaced ?_
  rw [texts, texts, forall₂_map_left_iff, forall₂_map_right_iff]
  exact h.imp fun _ _ h => h.text

end Token

end Courtesy
