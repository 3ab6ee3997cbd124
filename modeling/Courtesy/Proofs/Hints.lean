import Courtesy.Diagnostic
import Courtesy.Proofs.Expressions

/-!
# What the category of a wording depends on

The category of a value's fault is read off its wording, and the wording may quote string literals
of the program. Of these the category depends on two things only: whether they speak of a type, and
whether they speak of something that is missing (`SameHints`). Texts that differ in the contents of
their literals, but agree in this (`Text.Requoted`), are of the same category
(`Category.ofWording_requoted`).

No phrase that is looked for holds a quote, so an occurrence lies between two quotes that follow
each other (`Text.holds_append_quote`). Nor does one hold a digit, so that the spaces which an
expression puts in front of digits change nothing (`Text.holds_respace`).
-/

namespace Courtesy

namespace Text

/-! ## Occurrences and quotes -/

theorem holds_cons (p : List Char) (c : Char) (cs : List Char) :
    holds p (c :: cs) = (p.isPrefixOf (c :: cs) || holds p cs) := rfl

section

variable {p : List Char} (hp : Plain p)

include hp

theorem isPrefixOf_append_quote (a b : List Char) :
    p.isPrefixOf (a ++ '"' :: b) = p.isPrefixOf a := by
  induction a generalizing p with
  | nil =>
    cases p with
    | nil => rfl
    | cons x p =>
      have hx : (x == '"') = false := by simpa using (plain_cons.1 hp).1
      simp [List.isPrefixOf, hx]
  | cons c a ih =>
    cases p with
    | nil => rfl
    | cons x p => rw [List.cons_append, List.isPrefixOf, List.isPrefixOf, ih (plain_cons.1 hp).2]

theorem holds_append_quote (hne : p ≠ []) (a b : List Char) :
    holds p (a ++ '"' :: b) = (holds p a || holds p b) := by
  induction a with
  | nil =>
    have hfirst := isPrefixOf_append_quote hp [] b
    rw [List.nil_append] at hfirst ⊢
    have hnil : p.isPrefixOf [] = false ∧ holds p [] = false := by
      cases p with
      | nil => exact absurd rfl hne
      | cons x p => exact ⟨rfl, rfl⟩
    rw [holds_cons, hfirst, hnil.1, hnil.2]
  | cons c a ih =>
    have hfirst := isPrefixOf_append_quote hp (c :: a) b
    rw [List.cons_append] at hfirst ⊢
    rw [holds_cons, holds_cons, hfirst, ih, Bool.or_assoc]

end

/-! ## Occurrences and spaces in front of digits -/

/-- The second text is the first one with spaces put in front of digits. -/
inductive Parted : List Char → List Char → Prop
  | nil : Parted [] []
  | char (c : Char) {cs cs' : List Char} (h : Parted cs cs') : Parted (c :: cs) (c :: cs')
  | space {d : Char} {cs cs' : List Char} (hd : d.isDigit = true) (h : Parted cs cs') :
      Parted (d :: cs) (' ' :: d :: cs')

theorem Parted.refl (cs : List Char) : Parted cs cs := by
  induction cs with
  | nil => exact .nil
  | cons c cs ih => exact .char c ih

theorem parted_respace (inWord : Bool) (cs : List Char) :
    Parted cs (Expression.respace inWord cs) := by
  induction inWord, cs using Expression.respace_induction with
  | nil inWord => exact .refl _
  | cons inWord x cs h ih =>
    rw [Expression.respace_cons h]
    exact .char x ih
  | glue x y z d rest hw hd ih =>
    rw [Expression.respace_glued hw hd]
    exact .char x (.char y (.char z (.space hd ih)))

/-- A phrase without digits that ends in no space. -/
structure Wordy (p : List Char) : Prop where
  noDigit : ∀ c ∈ p, c.isDigit = false
  noSpace : p.getLast? ≠ some ' '

theorem Wordy.of_cons {x : Char} {p : List Char} (h : Wordy (x :: p)) : Wordy p := by
  refine ⟨fun c hc => h.noDigit c (List.mem_cons_of_mem x hc), fun hlast => h.noSpace ?_⟩
  rw [List.getLast?_cons, hlast]
  rfl

theorem Parted.isPrefixOf {p cs cs' : List Char} (h : Parted cs cs') (hp : Wordy p) :
    p.isPrefixOf cs' = p.isPrefixOf cs := by
  induction h generalizing p with
  | nil => rfl
  | char c _ ih =>
    cases p with
    | nil => rfl
    | cons x p => rw [List.isPrefixOf, List.isPrefixOf, ih hp.of_cons]
  | @space d cs cs' hd _ _ =>
    -- neither text starts with the phrase, as a digit would have to stand in it
    have hno : ∀ {q more : List Char}, Wordy q → q ≠ [] → q.isPrefixOf (d :: more) = false := by
      intro q more hq hne
      obtain ⟨x, q, rfl⟩ := List.exists_cons_of_ne_nil hne
      have hx : (x == d) = false := by
        rw [beq_eq_false_iff_ne]
        rintro rfl
        rw [hq.noDigit x List.mem_cons_self] at hd
        cases hd
      simp [List.isPrefixOf, hx]
    cases p with
    | nil => rfl
    | cons x p =>
      rw [hno hp (List.cons_ne_nil x p), List.isPrefixOf]
      by_cases hx : x = ' '
      · have hne : p ≠ [] := by
          rintro rfl
          exact hp.noSpace (by rw [hx]; rfl)
        rw [hno hp.of_cons hne, Bool.and_false]
      · rw [beq_eq_false_iff_ne.2 hx, Bool.false_and]

theorem Parted.holds {p cs cs' : List Char} (h : Parted cs cs') (hp : Wordy p) :
    holds p cs' = holds p cs := by
  induction h with
  | nil => rfl
  | char c h ih =>
    have hfirst := (Parted.char c h).isPrefixOf hp
    rw [holds_cons, hfirst, ih, holds_cons]
  | @space d cs cs' hd h ih =>
    have hspace := (Parted.space hd h).isPrefixOf hp
    have hchar := (Parted.char d h).isPrefixOf hp
    rw [holds_cons, hspace, holds_cons, hchar, ih, holds_cons, ← Bool.or_assoc, Bool.or_self]

theorem holds_respace {p : List Char} (hp : Wordy p) (inWord : Bool) (cs : List Char) :
    holds p (Expression.respace inWord cs) = holds p cs :=
  (parted_respace inWord cs).holds hp

end Text

/-! ## Texts that differ in their literals -/

namespace Text

/-- Both texts speak of a type or neither does, and both speak of something missing or neither does.
-/
structure SameHints (a b : List Char) : Prop where
  type : holds "is of type".toList a = holds "is of type".toList b
  absence : (holds "not found".toList a || holds "undeclared".toList a) =
    (holds "not found".toList b || holds "undeclared".toList b)

theorem SameHints.refl (a : List Char) : SameHints a a := ⟨rfl, rfl⟩

theorem SameHints.append_quote {a a' b b' : List Char} (ha : SameHints a a') (hb : SameHints b b') :
    SameHints (a ++ '"' :: b) (a' ++ '"' :: b') := by
  have hquote : ∀ {p : List Char}, Plain p ∧ p ≠ [] → ∀ a b : List Char,
      holds p (a ++ '"' :: b) = (holds p a || holds p b) :=
    fun hp => holds_append_quote hp.1 hp.2
  have htype := hquote (p := "is of type".toList) (by decide)
  have hfound := hquote (p := "not found".toList) (by decide)
  have hdeclared := hquote (p := "undeclared".toList) (by decide)
  have hswap : ∀ w x y z : Bool, ((w || x) || (y || z)) = ((w || y) || (x || z)) := by decide
  refine ⟨by rw [htype, htype, ha.type, hb.type], ?_⟩
  rw [hfound, hfound, hdeclared, hdeclared, hswap, ha.absence, hb.absence, hswap]

theorem SameHints.respace {a b : List Char} (h : SameHints a b) (inWord : Bool) :
    SameHints (Expression.respace inWord a) (Expression.respace inWord b) := by
  have hkept : ∀ {p : List Char}, p.any Char.isDigit = false ∧ p.getLast? ≠ some ' ' →
      ∀ cs : List Char, holds p (Expression.respace inWord cs) = holds p cs :=
    fun hp => holds_respace
      ⟨fun c hc => Bool.eq_false_iff.2 (List.any_eq_false.1 hp.1 c hc), hp.2⟩ inWord
  have htype := hkept (p := "is of type".toList) (by decide)
  have hfound := hkept (p := "not found".toList) (by decide)
  have hdeclared := hkept (p := "undeclared".toList) (by decide)
  exact ⟨by rw [htype, htype, h.type], by rw [hfound, hfound, hdeclared, hdeclared, h.absence]⟩

/-- Contents of string literals that may take each other's place. -/
structure Exchanged (body body' : List Char) : Prop where
  plain : Plain body
  plain' : Plain body'
  oneLine : '\n' ∉ body
  oneLine' : '\n' ∉ body'
  hints : SameHints body body'

theorem Exchanged.respace {body body' : List Char} (h : Exchanged body body') :
    Exchanged (Expression.respace false body) (Expression.respace false body') where
  plain := Expression.plain_respace h.plain false
  plain' := Expression.plain_respace h.plain' false
  oneLine := fun hm => h.oneLine ((Expression.mem_respace (by decide) false body).1 hm)
  oneLine' := fun hm => h.oneLine' ((Expression.mem_respace (by decide) false body').1 hm)
  hints := h.hints.respace false

/-- Texts that differ in the contents of their string literals. -/
inductive Requoted : List Char → List Char → Prop
  | plain {p : List Char} (h : Plain p) : Requoted p p
  | literal {p body body' rest rest' : List Char} (hp : Plain p) (hb : Exchanged body body')
      (h : Requoted rest rest') :
      Requoted (p ++ '"' :: (body ++ '"' :: rest)) (p ++ '"' :: (body' ++ '"' :: rest'))

namespace Requoted

variable {a b c d p : List Char}

theorem closed (h : Requoted a b) : Closed a ∧ Closed b := by
  induction h with
  | plain hp => exact ⟨.plain hp, .plain hp⟩
  | literal hp hb _ ih => exact ⟨.literal hp hb.plain ih.1, .literal hp hb.plain' ih.2⟩

theorem plain_append (hp : Plain p) (h : Requoted a b) : Requoted (p ++ a) (p ++ b) := by
  cases h with
  | plain ha => exact .plain (Text.plain_append.2 ⟨hp, ha⟩)
  | literal hq hb h =>
    rw [← List.append_assoc, ← List.append_assoc]
    exact .literal (Text.plain_append.2 ⟨hp, hq⟩) hb h

theorem append (h : Requoted a b) (h' : Requoted c d) : Requoted (a ++ c) (b ++ d) := by
  induction h with
  | plain hp => exact h'.plain_append hp
  | literal hp hb _ ih =>
    simp only [List.append_assoc, List.cons_append]
    exact .literal hp hb ih

theorem hints (h : Requoted a b) : SameHints a b := by
  induction h with
  | plain _ => exact .refl _
  | literal _ hb _ ih => exact (SameHints.refl _).append_quote (hb.hints.append_quote ih)

/-- Up to the first quote the texts are the same. -/
theorem isPrefixOf (hp : Plain p) (h : Requoted a b) : p.isPrefixOf a = p.isPrefixOf b := by
  cases h with
  | plain _ => rfl
  | literal _ _ _ => rw [isPrefixOf_append_quote hp, isPrefixOf_append_quote hp]

theorem respace (h : Requoted a b) (inWord : Bool) :
    Requoted (Expression.respace inWord a) (Expression.respace inWord b) := by
  induction h generalizing inWord with
  | plain hp => exact .plain (Expression.plain_respace hp inWord)
  | literal hp hb _ ih =>
    rw [Expression.respace_literal, Expression.respace_literal]
    exact .literal (Expression.plain_respace hp inWord) hb.respace (ih false)

end Requoted

end Text

open Text

/-- The category of a wording does not depend on what its literals say, hints apart. -/
theorem Category.ofWording_requoted {m m' : String} (h : Requoted m.toList m'.toList) :
    ofWording m = ofWording m' := by
  have hlead : startsWith "Type mismatch" m = startsWith "Type mismatch" m' :=
    h.isPrefixOf (by decide)
  have htype : contains "is of type" m = contains "is of type" m' := h.hints.type
  have habsence : (contains "not found" m || contains "undeclared" m) =
      (contains "not found" m' || contains "undeclared" m') := h.hints.absence
  rw [ofWording, ofWording, hlead, htype, habsence]

end Courtesy
