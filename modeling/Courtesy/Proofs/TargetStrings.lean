import Courtesy.Proofs.Quotes
import Courtesy.Proofs.Tokens

/-!
# Strings of the target language

How the target language reads a string between quotes. Its strings are sequences of UTF-16 units. A
backslash starts an escape sequence, and a string ends in the line in which it starts. `string?`
reads the string behind an opening quote, and `strings` all strings of a text.

A text between two quotes is read as itself exactly when there is no backslash and no end of a line
in it (`string?_eq_some_iff`). This also covers a text that has got additional spaces on the way,
which no escape sequence can make up for.
-/

namespace Courtesy.Target

open Text

/-! ## Units -/

/-- The UTF-16 units of a code point. -/
def codeUnits (n : Nat) : List Nat :=
  if n < 0x10000 then [n]
  else [0xd800 + (n - 0x10000) / 0x400, 0xdc00 + (n - 0x10000) % 0x400]

/-- A text as the value of a string. -/
def encode (cs : List Char) : List Nat := cs.flatMap fun c => codeUnits c.toNat

@[simp] theorem encode_nil : encode [] = [] := rfl

theorem encode_cons (c : Char) (cs : List Char) :
    encode (c :: cs) = codeUnits c.toNat ++ encode cs := rfl

theorem encode_append (as bs : List Char) : encode (as ++ bs) = encode as ++ encode bs :=
  List.flatMap_append

theorem length_codeUnits (n : Nat) :
    1 ≤ (codeUnits n).length ∧ (codeUnits n).length ≤ 2 := by
  unfold codeUnits
  split <;> simp

theorem length_le_length_encode (cs : List Char) : cs.length ≤ (encode cs).length := by
  induction cs with
  | nil => exact Nat.zero_le _
  | cons c cs ih =>
    have hunits := (length_codeUnits c.toNat).1
    rw [encode_cons, List.length_append, List.length_cons]
    omega

/-- A unit below the surrogates stands for one code point alone. -/
theorem count_codeUnits {u : Nat} (hu : u < 0xd800) (n : Nat) :
    (codeUnits n).count u = if n = u then 1 else 0 := by
  unfold codeUnits
  split
  · simp [List.count_cons]
  · have hhigh : 0xd800 + (n - 0x10000) / 0x400 ≠ u := by omega
    have hlow : 0xdc00 + (n - 0x10000) % 0x400 ≠ u := by omega
    have hn : n ≠ u := by omega
    simp [hhigh, hlow, hn]

theorem count_encode {c : Char} (hc : c.toNat < 0xd800) (cs : List Char) :
    (encode cs).count c.toNat = cs.count c := by
  induction cs with
  | nil => rfl
  | cons d cs ih =>
    rw [encode_cons, List.count_append, count_codeUnits hc, ih, List.count_cons, Nat.add_comm]
    by_cases hd : d = c
    · simp [hd]
    · have hne : d.toNat ≠ c.toNat := fun heq => hd (Char.toNat_inj.1 heq)
      simp [hd, hne]

/-! ## Escape sequences -/

/-- The characters that end a line. -/
def isLineEnd (c : Char) : Bool :=
  c == '\n' || c == '\r' || c == '\u0085' || c == '\u2028' || c == '\u2029'

def isHexDigit (c : Char) : Bool :=
  c.isDigit || ('a' ≤ c && c ≤ 'f') || ('A' ≤ c && c ≤ 'F')

def hexValue (c : Char) : Nat :=
  if c.isDigit then c.toNat - 48 else if c.isUpper then c.toNat - 55 else c.toNat - 87

def hexNumber (digits : List Char) : Nat := digits.foldl (fun n d => 16 * n + hexValue d) 0

/-- The hexadecimal digits in front, `most` at most. -/
def hexDigits (most : Nat) (cs : List Char) : List Char := (cs.take most).takeWhile isHexDigit

/-- The units of a code point that is given by its digits behind a letter, `least` at least and
`most` at most, and how many characters letter and digits take. -/
def hexEscape? (least most : Nat) (cs : List Char) : Option (List Nat × Nat) :=
  let digits := hexDigits most cs
  if least ≤ digits.length ∧ hexNumber digits ≤ 0x10ffff then
    some (codeUnits (hexNumber digits), digits.length + 1)
  else none

/-- The letters and marks that make an escape sequence alone, with their units. -/
def simpleEscapes : List (Char × Nat) :=
  [('\x27', 0x27), ('"', 0x22), ('\\', 0x5c), ('0', 0), ('a', 7), ('b', 8), ('f', 0xc), ('n', 0xa),
    ('r', 0xd), ('t', 9), ('v', 0xb)]

/-- The units of the escape sequence behind a backslash, and how many characters it takes. -/
def escape? : List Char → Option (List Nat × Nat)
  | [] => none
  | 'x' :: cs => hexEscape? 1 4 cs
  | 'u' :: cs => hexEscape? 4 4 cs
  | 'U' :: cs => hexEscape? 8 8 cs
  | c :: _ => (simpleEscapes.lookup c).map fun unit => ([unit], 1)

theorem hexDigits_initial (most : Nat) (cs : List Char) : hexDigits most cs <+: cs :=
  (List.takeWhile_prefix isHexDigit).trans (List.take_prefix most cs)

/-- What an escape sequence takes and yields. -/
structure Escapes (cs : List Char) (us : List Nat) (n : Nat) : Prop where
  le : n ≤ cs.length
  short : us.length ≤ n
  solid : ∀ c ∈ cs.take n, c ≠ ' ' ∧ isLineEnd c = false
  quote : '"' ∈ cs.take n → us = ['"'.toNat]

theorem solid_of_toNat {c : Char} (h : 48 ≤ c.toNat ∧ c.toNat ≤ 122) :
    (c ≠ ' ' ∧ isLineEnd c = false) ∧ c ≠ '"' := by
  have other : ∀ d : Char, d.toNat < 48 ∨ 122 < d.toNat → c ≠ d := by
    rintro d hd rfl
    omega
  simp only [isLineEnd, Bool.or_eq_false_iff, beq_eq_false_iff_ne]
  exact ⟨⟨other _ (by decide), ⟨⟨⟨other _ (by decide), other _ (by decide)⟩, other _ (by decide)⟩,
    other _ (by decide)⟩, other _ (by decide)⟩, other _ (by decide)⟩

theorem toNat_of_isHexDigit {c : Char} (h : isHexDigit c = true) :
    48 ≤ c.toNat ∧ c.toNat ≤ 122 := by
  have hrange : ∀ lo hi : Char, (decide (lo ≤ c) && decide (c ≤ hi)) = true →
      lo.toNat ≤ c.toNat ∧ c.toNat ≤ hi.toNat := by
    intro lo hi hc
    rw [Bool.and_eq_true, decide_eq_true_eq, decide_eq_true_eq] at hc
    exact hc
  rcases Bool.or_eq_true_iff.1 h with h | h
  · rcases Bool.or_eq_true_iff.1 h with h | h
    · exact toNat_of_isWordChar (isWordChar_of_isDigit h)
    · have hc := hrange 'a' 'f' h
      exact ⟨Nat.le_trans (by decide) hc.1, Nat.le_trans hc.2 (by decide)⟩
  · have hc := hrange 'A' 'F' h
    exact ⟨Nat.le_trans (by decide) hc.1, Nat.le_trans hc.2 (by decide)⟩

theorem hexEscape?_escapes {letter : Char} (hletter : isWordChar letter = true) {least most : Nat}
    (hleast : 1 ≤ least) {cs : List Char} {us : List Nat} {n : Nat}
    (h : hexEscape? least most cs = some (us, n)) : Escapes (letter :: cs) us n := by
  unfold hexEscape? at h
  dsimp only at h
  split at h
  · rename_i hdigits
    cases h
    have htake : (letter :: cs).take ((hexDigits most cs).length + 1) =
        letter :: hexDigits most cs := by
      rw [List.take_succ_cons, List.cons.injEq, and_iff_right rfl]
      exact (List.prefix_iff_eq_take.1 (hexDigits_initial most cs)).symm
    have hall : ∀ c ∈ letter :: hexDigits most cs, (c ≠ ' ' ∧ isLineEnd c = false) ∧ c ≠ '"' := by
      refine List.forall_mem_cons.2 ⟨solid_of_toNat (toNat_of_isWordChar hletter), fun c hc => ?_⟩
      exact solid_of_toNat (toNat_of_isHexDigit (List.all_eq_true.1 List.all_takeWhile c hc))
    refine ⟨?_, ?_, ?_, ?_⟩
    · exact Nat.succ_le_succ (hexDigits_initial most cs).length_le
    · have hunits := (length_codeUnits (hexNumber (hexDigits most cs))).2
      omega
    · rw [htake]
      exact fun c hc => (hall c hc).1
    · rw [htake]
      exact fun hquote => absurd rfl (hall _ hquote).2
  · cases h

theorem escape?_escapes {cs : List Char} {us : List Nat} {n : Nat}
    (h : escape? cs = some (us, n)) : Escapes cs us n := by
  unfold escape? at h
  split at h
  · cases h
  · exact hexEscape?_escapes (by decide) (by decide) h
  · exact hexEscape?_escapes (by decide) (by decide) h
  · exact hexEscape?_escapes (by decide) (by decide) h
  · rename_i c cs _ _ _
    obtain ⟨unit, hunit, heq⟩ := Option.map_eq_some_iff.1 h
    cases heq
    have hmem := mem_of_lookup hunit
    have htable : ∀ p ∈ simpleEscapes, (p.1 ≠ ' ' ∧ isLineEnd p.1 = false) ∧
        (p.1 = '"' → p.2 = '"'.toNat) := by decide
    obtain ⟨hsolid, hquote⟩ := htable _ hmem
    refine ⟨by simp, by simp, by simpa using hsolid, ?_⟩
    intro hm
    rw [List.take_succ_cons, List.take_zero, List.mem_singleton] at hm
    exact congrArg (fun u => [u]) (hquote hm.symm)

/-! ## Strings -/

/-- The value of the string behind its opening quote, and how many characters it takes, the closing
quote included. The count says how many characters of an escape sequence are still to be passed
over. -/
def stringFrom : Nat → List Char → Option (List Nat × Nat)
  | _, [] => none
  | skip + 1, _ :: cs => (stringFrom skip cs).map fun r => (r.1, r.2 + 1)
  | 0, c :: cs =>
    if c = '"' then some ([], 1)
    else if c = '\\' then
      match escape? cs with
      | none => none
      | some (us, k) => (stringFrom k cs).map fun r => (us ++ r.1, r.2 + 1)
    else if isLineEnd c then none
    else (stringFrom 0 cs).map fun r => (codeUnits c.toNat ++ r.1, r.2 + 1)

/-- The string behind an opening quote. -/
def string? (cs : List Char) : Option (List Nat × Nat) := stringFrom 0 cs

theorem stringFrom_skip {k : Nat} {cs : List Char} (h : k ≤ cs.length) :
    stringFrom k cs = (string? (cs.drop k)).map fun r => (r.1, r.2 + k) := by
  induction k generalizing cs with
  | zero =>
    cases h : string? cs <;> simp_all [string?]
  | succ k ih =>
    cases cs with
    | nil => cases h
    | cons c cs =>
      rw [stringFrom, ih (Nat.le_of_succ_le_succ h), List.drop_succ_cons, Option.map_map]
      rfl

section

variable {s rest : List Char} {v : List Nat} {n : Nat}

/-- What is known of a string that ends where a text ends. -/
structure Spans (s : List Char) (v : List Nat) (n : Nat) : Prop where
  length : n = s.length + 1
  oneLine : ∀ c ∈ s, isLineEnd c = false
  spaces : s.count ' ' ≤ v.count ' '.toNat
  short : v.length ≤ (encode s).length
  shorter : '\\' ∈ s → v.length < (encode s).length

theorem Spans.cons {c : Char} (h : Spans s v n) (hend : isLineEnd c = false) (hslash : c ≠ '\\') :
    Spans (c :: s) (codeUnits c.toNat ++ v) (n + 1) := by
  refine ⟨congrArg (· + 1) h.length, List.forall_mem_cons.2 ⟨hend, h.oneLine⟩, ?_, ?_, ?_⟩
  · have hspaces := h.spaces
    have hunits := count_encode (c := ' ') (by decide) [c]
    rw [encode_cons, encode_nil, List.append_nil] at hunits
    rw [List.count_append, hunits, ← List.singleton_append, List.count_append]
    exact Nat.add_le_add_left hspaces _
  · have hshort := h.short
    rw [encode_cons, List.length_append, List.length_append]
    omega
  · intro hm
    rcases List.mem_cons.1 hm with heq | hm
    · exact absurd heq.symm hslash
    · have hshorter := h.shorter hm
      rw [encode_cons, List.length_append, List.length_append]
      omega

/-- An escape sequence inside of the text makes the string shorter than the text. -/
theorem Spans.escape {us : List Nat} {k : Nat} (h : Spans (s.drop k) v n)
    (hk : k ≤ s.length) (hshort : us.length ≤ k)
    (hsolid : ∀ c ∈ s.take k, c ≠ ' ' ∧ isLineEnd c = false) :
    Spans ('\\' :: s) (us ++ v) (n + k + 1) := by
  have hlen : (encode s).length = (encode (s.take k)).length + (encode (s.drop k)).length := by
    rw [← List.length_append, ← encode_append, List.take_append_drop]
  have htake := length_le_length_encode (s.take k)
  rw [List.length_take, Nat.min_eq_left hk] at htake
  have hslash : (encode ('\\' :: s)).length = 1 + (encode s).length := by
    rw [encode_cons, List.length_append]
    rfl
  have hv := h.short
  have hless : (us ++ v).length < (encode ('\\' :: s)).length := by
    rw [hslash, List.length_append]
    omega
  refine ⟨?_, ?_, ?_, Nat.le_of_lt hless, fun _ => hless⟩
  · have hn := h.length
    rw [List.length_drop] at hn
    rw [List.length_cons]
    omega
  · intro c hc
    rcases List.mem_cons.1 hc with rfl | hc
    · decide
    · rw [← List.take_append_drop k s, List.mem_append] at hc
      rcases hc with hc | hc
      · exact (hsolid c hc).2
      · exact h.oneLine c hc
  · have hnone : (s.take k).count ' ' = 0 :=
      List.count_eq_zero.2 fun hm => (hsolid ' ' hm).1 rfl
    have hspaces := h.spaces
    have hcount : ('\\' :: s).count ' ' = (s.drop k).count ' ' := by
      rw [List.count_cons_of_ne (by decide), ← List.take_append_drop k s, List.count_append, hnone,
        Nat.zero_add, List.take_append_drop]
    rw [hcount, List.count_append]
    exact Nat.le_trans hspaces (Nat.le_add_left _ _)

/-- A string that is read from a text in quotes ends with the text, or goes on behind an escaped
quote. -/
theorem string?_spans (hs : Plain s) (h : string? (s ++ '"' :: rest) = some (v, n)) :
    '"'.toNat ∈ v ∨ Spans s v n := by
  -- an escape sequence takes several characters, so the induction is on the length
  induction hlen : s.length using Nat.strongRecOn generalizing s v n with
  | ind len ih =>
    cases s with
    | nil =>
      cases h
      exact .inr ⟨rfl, by simp, Nat.le_refl _, Nat.le_refl _, by simp⟩
    | cons c s =>
      obtain ⟨hc, hs'⟩ := plain_cons.1 hs
      rw [string?, List.cons_append, stringFrom, if_neg hc] at h
      split at h
      · rename_i hslash
        subst hslash
        split at h
        · cases h
        · rename_i us k hescape
          have hescapes := escape?_escapes hescape
          rw [stringFrom_skip hescapes.le, Option.map_map] at h
          obtain ⟨⟨v', n'⟩, hread, heq⟩ := Option.map_eq_some_iff.1 h
          cases heq
          by_cases hk : k ≤ s.length
          · rw [List.drop_append_of_le_length hk] at hread
            have hdrop : Plain (s.drop k) := hs'.of_subset (List.drop_subset k s)
            have hless : (s.drop k).length < len := by
              rw [← hlen, List.length_drop, List.length_cons]
              omega
            rcases ih _ hless hdrop hread rfl with hquote | hspans
            · exact .inl (List.mem_append_right us hquote)
            · refine .inr (hspans.escape hk hescapes.short ?_)
              have hsolid := hescapes.solid
              rwa [List.take_append_of_le_length hk] at hsolid
          · have hquote : '"' ∈ (s ++ '"' :: rest).take k := by
              obtain ⟨m, hm⟩ : ∃ m, k - s.length = m + 1 := ⟨k - s.length - 1, by omega⟩
              rw [List.take_append, hm, List.take_succ_cons]
              exact List.mem_append_right _ List.mem_cons_self
            rw [hescapes.quote hquote]
            exact .inl List.mem_cons_self
      · rename_i hslash
        split at h
        · cases h
        · rename_i hend
          obtain ⟨⟨v', n'⟩, hread, heq⟩ := Option.map_eq_some_iff.1 h
          cases heq
          rcases ih s.length (by simp [← hlen]) hs' hread rfl with hquote | hspans
          · exact .inl (List.mem_append_right _ hquote)
          · exact .inr (hspans.cons (by simpa using hend) hslash)

theorem string?_plain (hs : Plain s) (hescape : '\\' ∉ s) (hline : ∀ c ∈ s, isLineEnd c = false) :
    string? (s ++ '"' :: rest) = some (encode s, s.length + 1) := by
  induction s with
  | nil => rfl
  | cons c s ih =>
    obtain ⟨hc, hs⟩ := plain_cons.1 hs
    obtain ⟨hend, hline⟩ := List.forall_mem_cons.1 hline
    have hslash : c ≠ '\\' := by
      rintro rfl
      exact hescape List.mem_cons_self
    have ih := ih hs (fun hm => hescape (List.mem_cons_of_mem c hm)) hline
    rw [string?] at ih ⊢
    rw [List.cons_append, stringFrom, if_neg hc, if_neg hslash, hend, if_neg (by decide), ih]
    rfl

/-- A text without quotes, put between quotes as it is or with more spaces, is read as a string with
that text as its value exactly when it is as it is, without a backslash and without an end of a
line. -/
theorem string?_eq_some_iff {t : List Char} (hs : Plain s) (ht : Plain t)
    (hspaces : s = t ∨ t.count ' ' < s.count ' ') :
    string? (s ++ '"' :: rest) = some (encode t, n) ↔
      n = s.length + 1 ∧ s = t ∧ '\\' ∉ t ∧ ∀ c ∈ t, isLineEnd c = false := by
  constructor
  · intro h
    rcases string?_spans hs h with hquote | hspans
    · refine absurd ?_ ht
      have hcount := List.count_pos_iff.2 hquote
      rw [count_encode (by decide)] at hcount
      exact List.count_pos_iff.1 hcount
    · have hcount := hspans.spaces
      rw [count_encode (by decide)] at hcount
      obtain rfl : s = t := hspaces.resolve_right (Nat.not_lt.2 hcount)
      exact ⟨hspans.length, rfl, fun hm => Nat.lt_irrefl _ (hspans.shorter hm), hspans.oneLine⟩
  · rintro ⟨rfl, rfl, hescape, hline⟩
    exact string?_plain hs hescape hline

end

/-- All strings of a text, one after the other; what stands outside of them is passed over. The
count says how many characters of a string are still to be passed over. -/
def stringsFrom : Nat → List Char → Option (List (List Nat))
  | _, [] => some []
  | skip + 1, _ :: cs => stringsFrom skip cs
  | 0, c :: cs =>
    if c = '"' then
      match string? cs with
      | none => none
      | some (v, n) => (stringsFrom n cs).map (v :: ·)
    else stringsFrom 0 cs

def strings (text : String) : Option (List (List Nat)) := stringsFrom 0 text.toList

theorem stringsFrom_skip (n : Nat) (cs : List Char) :
    stringsFrom n cs = stringsFrom 0 (cs.drop n) := by
  induction n generalizing cs with
  | zero => rfl
  | succ n ih =>
    cases cs with
    | nil => rfl
    | cons c cs => rw [stringsFrom, ih, List.drop_succ_cons]

theorem stringsFrom_plain {p : List Char} (hp : Plain p) (cs : List Char) :
    stringsFrom 0 (p ++ cs) = stringsFrom 0 cs := by
  induction p with
  | nil => rfl
  | cons c p ih =>
    obtain ⟨hc, hp⟩ := plain_cons.1 hp
    rw [List.cons_append, stringsFrom, if_neg hc, ih hp]

/-- The strings of a text whose quotes come in pairs are the values that are asked for exactly when
each quoted segment is read as the value that is asked for. -/
theorem stringsFrom_closed {α : Type} {emitted : α → List Char} {value : α → List Nat}
    {P : α → Prop} {as : List α} {cs : List Char} (hc : Closed cs)
    (hquoted : quoted cs = as.map emitted)
    (hread : ∀ a ∈ as, ∀ rest n,
      string? (emitted a ++ '"' :: rest) = some (value a, n) ↔
        n = (emitted a).length + 1 ∧ P a) :
    stringsFrom 0 cs = some (as.map value) ↔ ∀ a ∈ as, P a := by
  induction hc generalizing as with
  | @plain p hp =>
    rw [quoted_plain hp, eq_comm, List.map_eq_nil_iff] at hquoted
    subst hquoted
    have hnone := stringsFrom_plain hp []
    rw [List.append_nil] at hnone
    rw [hnone]
    simp [stringsFrom]
  | @literal p body rest hp hb _ ih =>
    rw [quoted_literal hp hb, eq_comm, List.map_eq_cons_iff] at hquoted
    obtain ⟨a, as, rfl, rfl, hrest⟩ := hquoted
    obtain ⟨hread, hreads⟩ := List.forall_mem_cons.1 hread
    rw [stringsFrom_plain hp, stringsFrom, if_pos rfl, List.forall_mem_cons, ← ih hrest.symm hreads,
      List.map_cons]
    have hskip : stringsFrom ((emitted a).length + 1) (emitted a ++ '"' :: rest) =
        stringsFrom 0 rest := by
      rw [stringsFrom_skip, List.drop_length_add_append]
      rfl
    constructor
    · intro h
      split at h
      · cases h
      · rename_i v n hv
        obtain ⟨vs, hvs, heq⟩ := Option.map_eq_some_iff.1 h
        obtain ⟨rfl, rfl⟩ := List.cons.inj heq
        obtain ⟨rfl, hP⟩ := (hread rest n).1 hv
        exact ⟨hP, hskip.symm.trans hvs⟩
    · rintro ⟨hP, hstrings⟩
      rw [(hread rest _).2 ⟨rfl, hP⟩]
      dsimp only
      rw [hskip, hstrings]
      rfl

end Courtesy.Target
