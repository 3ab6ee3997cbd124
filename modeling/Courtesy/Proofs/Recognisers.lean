import Courtesy.Proofs.Lexemes

/-!
# What a recogniser looks at

Phrases and strings apart, a lexeme ends at the latest at white space or at a quote, and the text
from there on does not count (`ordinaryLength?_append`). A lexeme that is cut out of its line is
still one lexeme (`ordinaryLength?_take`).

Which recogniser answers is decided by the first character, up to numbers: `ordinaryLength?_word`
and its companions have one equation for each class of characters.
-/

namespace Courtesy

open Text

namespace Lexeme

/-! ## Numbers behind their digits -/

theorem length_digits (cs : List Char) : digitCount cs ≤ cs.length :=
  (List.takeWhile_prefix Char.isDigit).length_le

theorem length_fraction {cs : List Char} (h : fractionCount cs ≠ 0) :
    fractionCount cs + 1 ≤ cs.length := by
  unfold fractionCount at h ⊢
  split at h
  · exact Nat.succ_le_succ (length_digits _)
  · exact absurd rfl h

/-- The length of a number of which `n` characters are read. -/
def numberTail (n : Nat) (rest : List Char) : Option Nat :=
  if fractionCount rest ≠ 0 ∧ atWordEnd (rest.drop (fractionCount rest + 1)) then
    some (n + (fractionCount rest + 1))
  else if atWordEnd rest then some n
  else none

def signLength (cs : List Char) : Nat := if cs.head? = some '-' then 1 else 0

theorem numberLength?_eq (cs : List Char) :
    numberLength? cs =
      let whole := digitCount (cs.drop (signLength cs))
      if whole = 0 then none
      else numberTail (signLength cs + whole) (cs.drop (signLength cs + whole)) := rfl

/-! ## Stops -/

/-- White space of a phrase or a quote. -/
def isStop (c : Char) : Bool := isPhraseSpace c || c == '"'

variable {p : Char → Bool} {n : Nat}

theorem eq_false_of_isStop (h : [' ', '\t', '\n', '\r', '\x0c', '"'].all (!p ·) = true) {c : Char}
    (hc : isStop c = true) : p c = false := by
  simp only [isStop, isPhraseSpace, Bool.or_eq_true, beq_iff_eq] at hc
  simp only [List.all_cons, Bool.and_eq_true, Bool.not_eq_true'] at h
  rcases hc with ((((rfl | rfl) | rfl) | rfl) | rfl) | rfl <;> simp [h]

theorem isStop_of_isWordChar {c : Char} (h : isWordChar c = true) : isStop c = false := by
  rw [Bool.eq_false_iff]
  intro hstop
  have hword : isWordChar c = false := eq_false_of_isStop (by decide) hstop
  rw [h] at hword
  cases hword

/-- A text that is empty or goes on with a stop. -/
def Stops (rest : List Char) : Prop := ∀ c ∈ rest.head?, isStop c = true

theorem takeWhile_append_of_head {rest : List Char} (h : ∀ c ∈ rest.head?, p c = false)
    (cs : List Char) : (cs ++ rest).takeWhile p = cs.takeWhile p := by
  induction cs with
  | nil =>
    cases rest with
    | nil => rfl
    | cons c rest =>
      have hc := h c rfl
      simp [hc]
  | cons c cs ih =>
    rw [List.cons_append, List.takeWhile_cons, List.takeWhile_cons, ih]

theorem takeWhile_append_stops {rest : List Char} (h : Stops rest)
    (hp : [' ', '\t', '\n', '\r', '\x0c', '"'].all (!p ·) = true) (cs : List Char) :
    (cs ++ rest).takeWhile p = cs.takeWhile p :=
  takeWhile_append_of_head (fun c hc => eq_false_of_isStop hp (h c hc)) cs

/-- A text that is empty or goes on with a character that no number takes in. -/
def Breaks (rest : List Char) : Prop := ∀ c ∈ rest.head?, isWordChar c = false ∧ c ≠ '.'

theorem Stops.breaks {rest : List Char} (h : Stops rest) : Breaks rest := by
  intro c hc
  refine ⟨eq_false_of_isStop (by decide) (h c hc), ?_⟩
  rintro rfl
  exact absurd (h '.' hc) (by decide)

section

variable {rest : List Char} (h : Breaks rest)

include h

theorem digitCount_append (cs : List Char) : digitCount (cs ++ rest) = digitCount cs := by
  have hdigit : ∀ c ∈ rest.head?, c.isDigit = false := by
    intro c hc
    rw [Bool.eq_false_iff]
    intro hd
    have hword := (h c hc).1
    rw [isWordChar_of_isDigit hd] at hword
    cases hword
  rw [digitCount, takeWhile_append_of_head hdigit, digitCount]

theorem atWordEnd_append (cs : List Char) : atWordEnd (cs ++ rest) = atWordEnd cs := by
  cases cs with
  | nil =>
    cases rest with
    | nil => rfl
    | cons c rest => simp [atWordEnd, (h c rfl).1]
  | cons c cs => rfl

theorem fractionCount_append (cs : List Char) : fractionCount (cs ++ rest) = fractionCount cs := by
  cases cs with
  | nil =>
    cases rest with
    | nil => rfl
    | cons c rest => simp [fractionCount, (h c rfl).2]
  | cons c cs =>
    by_cases hc : c = '.'
    · subst hc
      exact digitCount_append h cs
    · simp [fractionCount, hc]

theorem numberTail_append (n : Nat) (cs : List Char) :
    numberTail n (cs ++ rest) = numberTail n cs := by
  unfold numberTail
  rw [fractionCount_append h, atWordEnd_append h]
  by_cases hf : fractionCount cs = 0
  · simp [hf]
  · rw [List.drop_append_of_le_length (length_fraction hf), atWordEnd_append h]

theorem numberLength?_append (c : Char) (cs : List Char) :
    numberLength? (c :: cs ++ rest) = numberLength? (c :: cs) := by
  have hsign : signLength (c :: cs ++ rest) = signLength (c :: cs) := rfl
  have hone : signLength (c :: cs) ≤ (c :: cs).length := by
    rw [signLength, List.length_cons]
    split <;> omega
  have hwhole := length_digits ((c :: cs).drop (signLength (c :: cs)))
  rw [List.length_drop] at hwhole
  rw [numberLength?_eq, numberLength?_eq, hsign, List.drop_append_of_le_length hone,
    digitCount_append h]
  dsimp only
  rw [List.drop_append_of_le_length (by omega), numberTail_append h]

end

/-! ## Lexemes cut out of a text -/

theorem takeWhile_take (p : Char → Bool) (n : Nat) (cs : List Char) :
    (cs.take n).takeWhile p = (cs.takeWhile p).take n := by
  induction cs generalizing n with
  | nil => simp
  | cons c cs ih =>
    cases n with
    | zero => rfl
    | succ n =>
      rw [List.take_succ_cons, List.takeWhile_cons, List.takeWhile_cons, ih]
      split <;> rfl

theorem digitCount_take (n : Nat) (cs : List Char) :
    digitCount (cs.take n) = min n (digitCount cs) := by
  rw [digitCount, takeWhile_take, List.length_take, digitCount]

theorem fractionCount_take (n : Nat) (cs : List Char) :
    fractionCount (cs.take (n + 1)) = min n (fractionCount cs) := by
  cases cs with
  | nil => simp [fractionCount]
  | cons c cs =>
    by_cases hc : c = '.'
    · subst hc
      exact digitCount_take n cs
    · simp [fractionCount, hc]

theorem numberTail_some {m : Nat} {cs : List Char} (h : numberTail n cs = some m) :
    ∃ k, m = n + k ∧ k ≤ cs.length ∧ atWordEnd (cs.drop k) = true ∧
      numberTail n (cs.take k) = some m := by
  unfold numberTail at h
  split at h
  · rename_i hf
    cases h
    have hcount : fractionCount (cs.take (fractionCount cs + 1)) = fractionCount cs := by
      rw [fractionCount_take, Nat.min_self]
    have hdrop : (cs.take (fractionCount cs + 1)).drop (fractionCount cs + 1) = [] := by simp
    refine ⟨fractionCount cs + 1, rfl, length_fraction hf.1, hf.2, ?_⟩
    rw [numberTail, hcount, hdrop, if_pos ⟨hf.1, rfl⟩]
  · split at h
    · rename_i hend
      cases h
      exact ⟨0, rfl, Nat.zero_le _, hend, rfl⟩
    · cases h

/-- A number ends like a word, and is a number when it stands alone. -/
theorem numberLength?_some {cs : List Char} (h : numberLength? cs = some n) :
    n ≤ cs.length ∧ atWordEnd (cs.drop n) = true ∧ numberLength? (cs.take n) = some n := by
  have hsign : signLength (cs.take n) = signLength cs := by
    have hne : n ≠ 0 := Nat.ne_of_gt (number_plain h).1
    rw [signLength, List.head?_take, if_neg hne, signLength]
  rw [numberLength?_eq] at h ⊢
  rw [hsign]
  generalize signLength cs = sign at h ⊢
  dsimp only at h ⊢
  split at h
  · cases h
  · rename_i hwhole
    obtain ⟨k, rfl, hle, hend, htail⟩ := numberTail_some h
    have hdigit := length_digits (cs.drop sign)
    rw [List.length_drop] at hle hdigit
    rw [List.drop_drop] at hend
    have hdigits : digitCount ((cs.take (sign + digitCount (cs.drop sign) + k)).drop sign) =
        digitCount (cs.drop sign) := by
      rw [List.drop_take, digitCount_take]
      omega
    rw [hdigits, if_neg hwhole, List.drop_take, Nat.add_sub_cancel_left]
    exact ⟨by omega, hend, htail⟩

theorem numberLength?_digits {ds rest : List Char} (hne : ds ≠ [])
    (hds : ∀ d ∈ ds, d.isDigit = true) (hrest : ∀ d ∈ rest.head?, d.isDigit = false) :
    numberLength? (ds ++ rest) = numberTail ds.length rest := by
  obtain ⟨d, ds, rfl⟩ := List.exists_cons_of_ne_nil hne
  have hminus : d ≠ '-' := by
    rintro rfl
    exact absurd (hds '-' List.mem_cons_self) (by decide)
  have hcount : digitCount (d :: ds ++ rest) = (d :: ds).length := by
    rw [digitCount, List.takeWhile_append_of_pos hds]
    cases rest with
    | nil => simp
    | cons c rest =>
      have hc := hrest c rfl
      rw [List.takeWhile_cons_of_neg (by simp [hc]), List.append_nil]
  have hsign : signLength (d :: ds ++ rest) = 0 := by simp [signLength, hminus]
  rw [numberLength?_eq, hsign]
  dsimp only
  rw [List.drop_zero, hcount, if_neg (by simp), Nat.zero_add, List.drop_left]

theorem numberLength?_none {c : Char} {cs : List Char} (hc : c.isDigit = false)
    (hcs : c = '-' → ∀ d ∈ cs.head?, d.isDigit = false) : numberLength? (c :: cs) = none := by
  have hcount : ∀ {ds : List Char}, (∀ d ∈ ds.head?, d.isDigit = false) → digitCount ds = 0 := by
    intro ds hds
    cases ds with
    | nil => rfl
    | cons d ds => simp [digitCount, hds d rfl]
  rw [numberLength?_eq]
  by_cases hminus : c = '-'
  · subst hminus
    simp [signLength, hcount (hcs rfl)]
  · have hsign : signLength (c :: cs) = 0 := by simp [signLength, hminus]
    rw [hsign, List.drop_zero, hcount (by simpa using hc)]
    rfl

/-! ## Lexemes that are no phrase -/

/-- The length of the lexeme at the head of a text, phrases left out. -/
def ordinaryLength? (cs : List Char) : Option Nat :=
  closedStringLength? cs <|> numberLength? cs <|> wordLength? cs <|> markLength? cs
    <|> openStringLength? cs <|> raggedLength? cs <|> symbolsLength? cs <|> singleLength? cs

theorem lexemeLength?_eq (cs : List Char) :
    lexemeLength? cs = (anyPhraseLength? cs <|> ordinaryLength? cs) := rfl

theorem char_cases {c : Char} (h : isPhraseSpace c = false) :
    c = '"' ∨ isWordStart c = true ∨ c.isDigit = true ∨ isMark c = true ∨ isSymbol c = true := by
  by_cases hquote : c = '"'
  · exact .inl hquote
  · by_cases hmark : isMark c = true
    · exact .inr (.inr (.inr (.inl hmark)))
    · by_cases hword : isWordChar c = true
      · rcases isWordStart_or_isDigit hword with hstart | hdigit
        · exact .inr (.inl hstart)
        · exact .inr (.inr (.inl hdigit))
      · have hsymbol : isSymbol c = true := by simp [isSymbol, h, hmark, hword, hquote]
        exact .inr (.inr (.inr (.inr hsymbol)))

theorem closedStringLength?_literal {body : List Char} (hb : Plain body) (rest : List Char) :
    closedStringLength? ('"' :: (body ++ '"' :: rest)) = some (body.length + 2) := by
  rw [closedStringLength?, takeWhile_plain_quote hb]
  simp

theorem closedStringLength?_opened {body : List Char} (hb : Plain body) :
    closedStringLength? ('"' :: body) = none := by
  cases h : closedStringLength? ('"' :: body) with
  | none => rfl
  | some n =>
    obtain ⟨body', rest, -, hcs, -⟩ := closedString_literal h
    rw [(List.cons.inj hcs).2] at hb
    exact absurd (by simp) hb

theorem ordinaryLength?_quote (cs : List Char) :
    ordinaryLength? ('"' :: cs) =
      (closedStringLength? ('"' :: cs) <|> some (cs.length + 1)) := by
  cases h : closedStringLength? ('"' :: cs) with
  | some n => rw [ordinaryLength?, h]; rfl
  | none =>
    have hplain := plain_of_closedString_none h
    have hall : cs.all (· != '"') = true := by
      rw [List.all_eq_true]
      intro c hc
      rw [bne_iff_ne]
      rintro rfl
      exact hplain hc
    have hnumber : numberLength? ('"' :: cs) = none :=
      numberLength?_none (by decide) (fun h => absurd h (by decide))
    have hword : wordLength? ('"' :: cs) = none := rfl
    have hmark : markLength? ('"' :: cs) = none := rfl
    have hopen : openStringLength? ('"' :: cs) = some (cs.length + 1) := by
      rw [openStringLength?, if_pos hall]
    rw [ordinaryLength?, h, hnumber, hword, hmark, hopen]
    rfl

section

variable {c : Char} (cs : List Char)

theorem strings_none (hc : c ≠ '"') :
    closedStringLength? (c :: cs) = none ∧ openStringLength? (c :: cs) = none := by
  refine ⟨?_, ?_⟩
  · unfold closedStringLength?
    split
    · rename_i heq
      exact absurd (List.cons.inj heq).1 hc
    · rfl
  · unfold openStringLength?
    split
    · rename_i heq
      exact absurd (List.cons.inj heq).1 hc
    · rfl

theorem ordinaryLength?_word (hc : isWordStart c = true) :
    ordinaryLength? (c :: cs) = some ((cs.takeWhile isWordChar).length + 1) := by
  have hquote : c ≠ '"' := by
    rintro rfl
    cases hc
  have hminus : c ≠ '-' := by
    rintro rfl
    cases hc
  have hnumber : numberLength? (c :: cs) = none :=
    numberLength?_none (isDigit_of_isWordStart hc) (fun h => absurd h hminus)
  rw [ordinaryLength?, (strings_none cs hquote).1, hnumber, wordLength?, if_pos hc]
  rfl

theorem ordinaryLength?_digit (hc : c.isDigit = true) :
    ordinaryLength? (c :: cs) =
      (numberLength? (c :: cs) <|> some ((cs.takeWhile isWordChar).length + 1)) := by
  have hquote : c ≠ '"' := by
    rintro rfl
    cases hc
  have hstart : isWordStart c = false := by
    rw [Bool.eq_false_iff]
    intro hs
    rw [isDigit_of_isWordStart hs] at hc
    cases hc
  have hmark : isMark c = false := by
    rw [Bool.eq_false_iff]
    intro hm
    simp only [isMark, Bool.or_eq_true, beq_iff_eq] at hm
    rcases hm with (((rfl | rfl) | rfl) | rfl) | rfl <;> cases hc
  rw [ordinaryLength?, (strings_none cs hquote).1, (strings_none cs hquote).2, wordLength?, hstart,
    markLength?, hmark, raggedLength?, if_pos hc]
  cases numberLength? (c :: cs) <;> rfl

theorem ordinaryLength?_mark (hc : isMark c = true) : ordinaryLength? (c :: cs) = some 1 := by
  have hnumber : numberLength? (c :: cs) = none := by
    simp only [isMark, Bool.or_eq_true, beq_iff_eq] at hc
    rcases hc with (((rfl | rfl) | rfl) | rfl) | rfl <;>
      exact numberLength?_none (by decide) (fun h => absurd h (by decide))
  have hstart : isWordStart c = false ∧ c ≠ '"' := by
    simp only [isMark, Bool.or_eq_true, beq_iff_eq] at hc
    rcases hc with (((rfl | rfl) | rfl) | rfl) | rfl <;> decide
  rw [ordinaryLength?, (strings_none cs hstart.2).1, hnumber, wordLength?, hstart.1, markLength?,
    if_pos hc]
  rfl

theorem ordinaryLength?_symbol (hc : isSymbol c = true) :
    ordinaryLength? (c :: cs) =
      (numberLength? (c :: cs) <|> some ((cs.takeWhile isSymbol).length + 1)) := by
  have hsymbol := hc
  simp only [isSymbol, Bool.and_eq_true, Bool.not_eq_true', bne_iff_ne] at hc
  obtain ⟨⟨⟨-, hmark⟩, hquote⟩, hword⟩ := hc
  have hstart : isWordStart c = false := by
    rw [Bool.eq_false_iff]
    intro hs
    rw [isWordChar_of_isWordStart hs] at hword
    cases hword
  have hdigit : c.isDigit = false := by
    rw [Bool.eq_false_iff]
    intro hd
    rw [isWordChar_of_isDigit hd] at hword
    cases hword
  have hrun : symbolsLength? (c :: cs) = some ((cs.takeWhile isSymbol).length + 1) := by
    rw [symbolsLength?, List.takeWhile_cons_of_pos hsymbol]
    rfl
  rw [ordinaryLength?, (strings_none cs hquote).1, (strings_none cs hquote).2, wordLength?, hstart,
    markLength?, hmark, raggedLength?, hdigit, hrun]
  cases numberLength? (c :: cs) <;> rfl

end

/-- The lexemes that hold no stop, by their first character and the text behind it. -/
inductive Ordinary (c : Char) (cs : List Char) : Nat → Prop
  | word (hc : isWordStart c = true) : Ordinary c cs ((cs.takeWhile isWordChar).length + 1)
  | number {n : Nat} (hc : c.isDigit = true ∨ isSymbol c = true)
      (h : numberLength? (c :: cs) = some n) : Ordinary c cs n
  | ragged (hc : c.isDigit = true) (h : numberLength? (c :: cs) = none) :
      Ordinary c cs ((cs.takeWhile isWordChar).length + 1)
  | mark (hc : isMark c = true) : Ordinary c cs 1
  | symbols (hc : isSymbol c = true) : Ordinary c cs ((cs.takeWhile isSymbol).length + 1)

section

variable {c : Char} {cs : List Char} (hc : isStop c = false)

include hc

theorem start_cases :
    isWordStart c = true ∨ c.isDigit = true ∨ isMark c = true ∨ isSymbol c = true := by
  rw [isStop, Bool.or_eq_false_iff, beq_eq_false_iff_ne] at hc
  exact (char_cases hc.1).resolve_left hc.2

/-- What stands behind does not count, where it goes on neither with a number nor with symbols. -/
theorem ordinaryLength?_append_breaks {rest : List Char} (h : Breaks rest)
    (hrun : (cs ++ rest).takeWhile isSymbol = cs.takeWhile isSymbol ∨ isSymbol c = false) :
    ordinaryLength? (c :: cs ++ rest) = ordinaryLength? (c :: cs) := by
  have hnumber := numberLength?_append h c cs
  have hword : (cs ++ rest).takeWhile isWordChar = cs.takeWhile isWordChar :=
    takeWhile_append_of_head (fun d hd => (h d hd).1) cs
  rw [List.cons_append] at hnumber ⊢
  rcases start_cases hc with hstart | hdigit | hmark | hsymbol
  · rw [ordinaryLength?_word _ hstart, ordinaryLength?_word _ hstart, hword]
  · rw [ordinaryLength?_digit _ hdigit, ordinaryLength?_digit _ hdigit, hnumber, hword]
  · rw [ordinaryLength?_mark _ hmark, ordinaryLength?_mark _ hmark]
  · rcases hrun with hrun | hno
    · rw [ordinaryLength?_symbol _ hsymbol, ordinaryLength?_symbol _ hsymbol, hnumber, hrun]
    · rw [hsymbol] at hno
      cases hno

/-- What stands behind a stop does not count. -/
theorem ordinaryLength?_append {rest : List Char} (h : Stops rest) :
    ordinaryLength? (c :: cs ++ rest) = ordinaryLength? (c :: cs) :=
  ordinaryLength?_append_breaks hc h.breaks (.inl (takeWhile_append_stops h (by decide) cs))

/-- The ways in which a text that starts with no stop can go on. -/
theorem ordinaryLength?_cases {n : Nat} (h : ordinaryLength? (c :: cs) = some n) :
    Ordinary c cs n := by
  rcases start_cases hc with hword | hdigit | hmark | hsymbol
  · rw [ordinaryLength?_word _ hword] at h
    cases h
    exact .word hword
  · rw [ordinaryLength?_digit _ hdigit, orElse_eq_some] at h
    rcases h with h | ⟨hno, h⟩
    · exact .number (.inl hdigit) h
    · cases h
      exact .ragged hdigit hno
  · rw [ordinaryLength?_mark _ hmark] at h
    cases h
    exact .mark hmark
  · rw [ordinaryLength?_symbol _ hsymbol, orElse_eq_some] at h
    rcases h with h | ⟨-, h⟩
    · exact .number (.inr hsymbol) h
    · cases h
      exact .symbols hsymbol

end

theorem Ordinary.le {c : Char} {cs : List Char} (h : Ordinary c cs n) : n ≤ (c :: cs).length := by
  have hrun : ∀ p : Char → Bool, (cs.takeWhile p).length + 1 ≤ (c :: cs).length := fun p =>
    Nat.succ_le_succ (List.takeWhile_prefix p).length_le
  cases h with
  | word _ => exact hrun _
  | number _ h => exact (numberLength?_some h).1
  | ragged _ _ => exact hrun _
  | mark _ => exact Nat.succ_le_succ (Nat.zero_le _)
  | symbols _ => exact hrun _

theorem atWordEnd_iff {cs : List Char} :
    atWordEnd cs = true ↔ ∀ c ∈ cs.head?, isWordChar c = false := by
  cases cs with
  | nil => simp [atWordEnd]
  | cons c cs => simp [atWordEnd]

theorem atWordEnd_drop (cs : List Char) :
    atWordEnd (cs.drop (cs.takeWhile isWordChar).length) = true := by
  induction cs with
  | nil => rfl
  | cons c cs ih =>
    by_cases hc : isWordChar c = true
    · rw [List.takeWhile_cons_of_pos hc]
      exact ih
    · rw [List.takeWhile_cons_of_neg hc]
      simpa [atWordEnd] using hc

/-- A lexeme that reads as a word ends where the word ends. -/
theorem Ordinary.atWordEnd {c : Char} {cs : List Char} (h : Ordinary c cs n)
    (hall : ∀ d ∈ (c :: cs).take n, isWordChar d = true) : atWordEnd ((c :: cs).drop n) = true := by
  cases h with
  | word _ => exact atWordEnd_drop cs
  | number _ h => exact (numberLength?_some h).2.1
  | ragged _ _ => exact atWordEnd_drop cs
  | mark hc =>
    have hword := hall c List.mem_cons_self
    simp only [isMark, Bool.or_eq_true, beq_iff_eq] at hc
    rcases hc with (((rfl | rfl) | rfl) | rfl) | rfl <;> cases hword
  | symbols hc =>
    have hword := hall c List.mem_cons_self
    simp [isSymbol, hword] at hc

theorem takeWhile_takeWhile (p : Char → Bool) (cs : List Char) :
    (cs.takeWhile p).takeWhile p = cs.takeWhile p := by
  have h := takeWhile_take p (cs.takeWhile p).length cs
  rwa [take_takeWhile, List.take_length] at h

theorem of_mem_takeWhile {cs : List Char} {c : Char} (h : c ∈ cs.takeWhile p) : p c = true :=
  List.all_eq_true.1 List.all_takeWhile c h

/-- A run of digits and word characters that is no number in its line is none when it stands
alone: a word character ends its digits. -/
theorem numberLength?_take_ragged {c : Char} {cs : List Char} (hc : c.isDigit = true)
    (h : numberLength? (c :: cs) = none) : numberLength? (c :: cs.takeWhile isWordChar) = none := by
  have hword : ∀ d ∈ c :: cs.takeWhile isWordChar, isWordChar d = true :=
    List.forall_mem_cons.2 ⟨isWordChar_of_isDigit hc, fun d hd => of_mem_takeWhile hd⟩
  generalize hp : c :: cs.takeWhile isWordChar = p at hword ⊢
  have hcut := List.takeWhile_append_dropWhile (p := Char.isDigit) (l := p)
  have hdigits : ∀ d ∈ p.takeWhile Char.isDigit, d.isDigit = true := fun d hd => of_mem_takeWhile hd
  have hne : p.takeWhile Char.isDigit ≠ [] := by
    rw [← hp, List.takeWhile_cons_of_pos hc]
    exact List.cons_ne_nil _ _
  cases hd : p.dropWhile Char.isDigit with
  | nil =>
    -- digits alone would have been a number, as the text behind them ends a word
    rw [hd, List.append_nil] at hcut
    have htext : c :: cs = p ++ cs.drop (cs.takeWhile isWordChar).length := by
      have hsplit := List.take_append_drop (cs.takeWhile isWordChar).length cs
      rw [take_takeWhile] at hsplit
      rw [← hp, List.cons_append, hsplit]
    have hend := atWordEnd_drop cs
    have hstop : ∀ d ∈ (cs.drop (cs.takeWhile isWordChar).length).head?, d.isDigit = false := by
      intro d hd
      rw [Bool.eq_false_iff]
      intro hdigit
      have hword := atWordEnd_iff.1 hend d hd
      rw [isWordChar_of_isDigit hdigit] at hword
      cases hword
    rw [htext, numberLength?_digits (hcut ▸ hne) (hcut ▸ hdigits) hstop, numberTail, hend] at h
    split at h <;> cases h
  | cons d rest =>
    have hdigit : d.isDigit = false := by
      have := List.head?_dropWhile_not Char.isDigit p
      rw [hd] at this
      simpa using this
    have hmem : d ∈ p := by
      rw [← hcut, hd]
      simp
    have hpoint : d ≠ '.' := by
      rintro rfl
      exact absurd (hword '.' hmem) (by decide)
    rw [← hcut, hd, numberLength?_digits hne hdigits (by simpa using hdigit)]
    simp [numberTail, fractionCount, hpoint, atWordEnd, hword d hmem]

/-- A lexeme is one lexeme when it stands alone. -/
theorem Ordinary.take {c : Char} {cs : List Char} (h : Ordinary c cs n) :
    ordinaryLength? ((c :: cs).take n) = some n := by
  cases h with
  | word hc =>
    rw [List.take_succ_cons, take_takeWhile, ordinaryLength?_word _ hc, takeWhile_takeWhile]
  | number hc h =>
    have hpos := (number_plain h).1
    have halone := (numberLength?_some h).2.2
    obtain ⟨n, rfl⟩ := Nat.exists_eq_add_one_of_ne_zero (Nat.ne_of_gt hpos)
    rw [List.take_succ_cons] at halone ⊢
    rcases hc with hdigit | hsymbol
    · rw [ordinaryLength?_digit _ hdigit, halone]
      rfl
    · rw [ordinaryLength?_symbol _ hsymbol, halone]
      rfl
  | ragged hc h =>
    rw [List.take_succ_cons, take_takeWhile, ordinaryLength?_digit _ hc,
      numberLength?_take_ragged hc h, takeWhile_takeWhile]
    rfl
  | mark hc => exact ordinaryLength?_mark _ hc
  | symbols hc =>
    have hdigit : ∀ {d : Char}, isSymbol d = true → d.isDigit = false := by
      intro d hd
      rw [Bool.eq_false_iff]
      intro hdigit
      simp [isSymbol, isWordChar_of_isDigit hdigit] at hd
    have hnumber : numberLength? (c :: cs.takeWhile isSymbol) = none := by
      refine numberLength?_none (hdigit hc) fun _ d hd => hdigit ?_
      exact of_mem_takeWhile (List.mem_of_mem_head? hd)
    rw [List.take_succ_cons, take_takeWhile, ordinaryLength?_symbol _ hc, hnumber,
      takeWhile_takeWhile]
    rfl

/-- A lexeme ends in front of the first stop. -/
theorem Ordinary.solid {c : Char} {cs : List Char} (hc : isStop c = false) (h : Ordinary c cs n) :
    ∀ d ∈ (c :: cs).take n, isStop d = false := by
  cases n with
  | zero => simp
  | succ n =>
    have halone := h.take
    have hlen : (cs.take n).length = n := by
      have := h.le
      rw [List.length_cons] at this
      rw [List.length_take]
      omega
    rw [List.take_succ_cons] at halone ⊢
    generalize cs.take n = more at halone hlen ⊢
    have hcut := List.takeWhile_append_dropWhile (p := fun d => !isStop d) (l := more)
    cases hd : more.dropWhile (fun d => !isStop d) with
    | nil =>
      rw [hd, List.append_nil] at hcut
      refine List.forall_mem_cons.2 ⟨hc, fun d hmem => ?_⟩
      rw [← hcut] at hmem
      simpa using of_mem_takeWhile hmem
    | cons d rest =>
      -- the lexeme would end in front of the stop, and yet have all its characters
      have hstops : Stops (d :: rest) := by
        intro x hx
        have := List.head?_dropWhile_not (fun d => !isStop d) more
        rw [hd] at this
        cases hx
        simpa using this
      rw [← hcut, hd, ← List.cons_append, ordinaryLength?_append hc hstops] at halone
      have hle := (ordinaryLength?_cases hc halone).le
      rw [← hcut, hd, List.length_append] at hlen
      simp only [List.length_cons] at hle hlen
      omega

theorem normalise_solid {p : List Char} (h : ∀ d ∈ p, isStop d = false) :
    normalise p = String.ofList p := by
  have hno : p.any (fun c => c == ' ' || c == '\t') = false := by
    rw [List.any_eq_false]
    intro d hd hspace
    have hstop := h d hd
    simp only [Bool.or_eq_true, beq_iff_eq] at hspace
    rcases hspace with rfl | rfl <;> cases hstop
  rw [normalise, hno, Bool.false_and, if_neg Bool.false_ne_true]

end Lexeme

end Courtesy
