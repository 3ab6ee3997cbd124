/-!
# Character classes

Four sets of characters decide how a text falls into pieces. Words are built from ASCII letters,
digits and the underscore. Three different sets stand for white space: what may part the words of
a phrase, what may part two lexemes, and the blanks that are trimmed from the ends of a line, which
are all characters with the Unicode property `White_Space`.
-/

namespace Courtesy.Text

/-- A character that may start a word: an ASCII letter or the underscore. -/
def isWordStart (c : Char) : Bool := c.isAlpha || c == '_'

/-- A character that may continue a word: an ASCII letter, a digit or the underscore. -/
def isWordChar (c : Char) : Bool := c.isAlphanum || c == '_'

/-- White space between the words of a phrase: tab, line feed, form feed, carriage return and
space. The vertical tab is not among them. -/
def isPhraseSpace (c : Char) : Bool :=
  c == ' ' || c == '\t' || c == '\n' || c == '\r' || c == '\x0c'

/-- White space between two lexemes: the spaces of a phrase and the vertical tab. -/
def isGap (c : Char) : Bool := isPhraseSpace c || c == '\x0b'

/-- The characters with the Unicode property `White_Space`. -/
def isBlank (c : Char) : Bool :=
  let n := c.toNat
  (0x09 ≤ n && n ≤ 0x0d) || n == 0x20 || n == 0x85 || n == 0xa0 || n == 0x1680
    || (0x2000 ≤ n && n ≤ 0x200a) || n == 0x2028 || n == 0x2029 || n == 0x202f || n == 0x205f
    || n == 0x3000

theorem isWordChar_of_isWordStart {c : Char} (h : isWordStart c = true) : isWordChar c = true := by
  simp only [isWordStart, isWordChar, Char.isAlphanum, Bool.or_eq_true] at h ⊢
  rcases h with h | h
  · exact .inl (.inl h)
  · exact .inr h

theorem isGap_of_isPhraseSpace {c : Char} (h : isPhraseSpace c = true) : isGap c = true := by
  simp [isGap, h]

theorem isDigit_of_isWordStart {c : Char} (h : isWordStart c = true) : c.isDigit = false := by
  cases hd : c.isDigit with
  | false => rfl
  | true =>
    have hle : c.val ≤ '9'.val := of_decide_eq_true (Bool.and_eq_true_iff.1 hd).2
    rcases Bool.or_eq_true_iff.1 h with hletter | hunderscore
    · rcases Bool.or_eq_true_iff.1 hletter with hupper | hlower
      · have hge : 'A'.val ≤ c.val := (of_decide_eq_true hupper).1
        exact absurd (UInt32.le_trans hge hle) (by decide)
      · have hge : 'a'.val ≤ c.val := of_decide_eq_true (Bool.and_eq_true_iff.1 hlower).1
        exact absurd (UInt32.le_trans hge hle) (by decide)
    · rw [beq_iff_eq.1 hunderscore] at hd
      cases hd

theorem isGap_of_isWordChar {c : Char} (h : isWordChar c = true) : isGap c = false := by
  cases hg : isGap c with
  | false => rfl
  | true =>
    simp only [isGap, isPhraseSpace, Bool.or_eq_true, beq_iff_eq] at hg
    rcases hg with ((((rfl | rfl) | rfl) | rfl) | rfl) | rfl <;> cases h

theorem isWordChar_of_isDigit {c : Char} (h : c.isDigit = true) : isWordChar c = true := by
  simp [isWordChar, Char.isAlphanum, h]

theorem isWordStart_or_isDigit {c : Char} (h : isWordChar c = true) :
    isWordStart c = true ∨ c.isDigit = true := by
  simp only [isWordChar, isWordStart, Char.isAlphanum, Bool.or_eq_true] at h ⊢
  rcases h with (halpha | hdigit) | hunderscore
  · exact .inl (.inl halpha)
  · exact .inr hdigit
  · exact .inl (.inr hunderscore)

theorem isBlank_of_isGap {c : Char} (h : isGap c = true) : isBlank c = true := by
  simp only [isGap, isPhraseSpace, Bool.or_eq_true, beq_iff_eq] at h
  rcases h with ((((rfl | rfl) | rfl) | rfl) | rfl) | rfl <;> decide

theorem toNat_of_isWordChar {c : Char} (h : isWordChar c = true) :
    48 ≤ c.toNat ∧ c.toNat ≤ 122 := by
  have bounds : ∀ lo hi : Char, lo.val ≤ c.val → c.val ≤ hi.val → 48 ≤ lo.toNat →
      hi.toNat ≤ 122 → 48 ≤ c.toNat ∧ c.toNat ≤ 122 := by
    intro lo hi hlo hhi h48 h122
    exact ⟨Nat.le_trans h48 (UInt32.le_iff_toNat_le.1 hlo),
      Nat.le_trans (UInt32.le_iff_toNat_le.1 hhi) h122⟩
  rcases Bool.or_eq_true_iff.1 h with h | h
  · rcases Bool.or_eq_true_iff.1 h with h | h
    · rcases Bool.or_eq_true_iff.1 h with h | h
      · obtain ⟨hlo, hhi⟩ := of_decide_eq_true h
        exact bounds 'A' 'Z' hlo hhi (by decide) (by decide)
      · obtain ⟨hlo, hhi⟩ := Bool.and_eq_true_iff.1 h
        exact bounds 'a' 'z' (of_decide_eq_true hlo) (of_decide_eq_true hhi)
          (by decide) (by decide)
    · obtain ⟨hlo, hhi⟩ := Bool.and_eq_true_iff.1 h
      exact bounds '0' '9' (of_decide_eq_true hlo) (of_decide_eq_true hhi)
        (by decide) (by decide)
  · rw [beq_iff_eq.1 h]
    decide

theorem isBlank_of_isWordChar {c : Char} (h : isWordChar c = true) : isBlank c = false := by
  have hbounds := toNat_of_isWordChar h
  rw [Bool.eq_false_iff]
  intro hblank
  simp only [isBlank, Bool.or_eq_true, Bool.and_eq_true, decide_eq_true_eq, beq_iff_eq] at hblank
  omega

end Courtesy.Text
