import Courtesy.Proofs.Lexemes
import Courtesy.Proofs.Positional.Access

/-!
# The scanner by byte positions

A line is an array of bytes. The first byte of a character tells the character, any further byte of
it only that it is inside one. The scanner keeps a position: it looks at the byte there, and either
passes over a gap or takes the lexeme that the rest of the line starts with. It fails when the byte
or the rest does not exist, when no class of lexemes answers, and when a lexeme has no bytes.

It never fails, and yields the lexemes of the line with their offsets.
-/

namespace Courtesy.Positional

open Courtesy.Text

/-- A byte of a text: the first one of a character, or one inside a character. -/
inductive Byte where
  | lead (c : Char)
  | inner
  deriving DecidableEq, Repr

/-- The bytes of a character. -/
def charBytes (c : Char) : List Byte := .lead c :: List.replicate (c.utf8Size - 1) .inner

/-- The bytes of a text. -/
def bytes (cs : List Char) : List Byte := cs.flatMap charBytes

/-- The character that a byte starts. -/
def Byte.char? : Byte → Option Char
  | .lead c => some c
  | .inner => none

/-- The characters that start in a run of bytes. -/
def chars (bs : List Byte) : List Char := bs.filterMap Byte.char?

theorem length_charBytes (c : Char) : (charBytes c).length = c.utf8Size := by
  have hpos := c.utf8Size_pos
  simp only [charBytes, List.length_cons, List.length_replicate]
  omega

@[simp] theorem bytes_nil : bytes [] = [] := rfl

@[simp] theorem bytes_cons (c : Char) (cs : List Char) :
    bytes (c :: cs) = charBytes c ++ bytes cs := rfl

@[simp] theorem bytes_append (cs ds : List Char) : bytes (cs ++ ds) = bytes cs ++ bytes ds :=
  List.flatMap_append

theorem chars_bytes (cs : List Char) : chars (bytes cs) = cs := by
  induction cs with
  | nil => rfl
  | cons c cs ih =>
    have hc : (charBytes c).filterMap Byte.char? = [c] := by
      simp [charBytes, Byte.char?]
    rw [bytes_cons, chars, List.filterMap_append, hc]
    exact congrArg (c :: ·) ih

theorem length_bytes_cons_pos (c : Char) (cs : List Char) : 0 < (bytes (c :: cs)).length := by
  rw [bytes_cons, charBytes]
  simp

/-! ## Scanning -/

/-- Whether a byte is white space between lexemes. -/
def Byte.isGap : Byte → Bool
  | .lead c => Text.isGap c
  | .inner => false

/-- The lexemes of a line from a position on. -/
def scanFrom (line : List Byte) (pos : Nat) : Option (List Lexeme) :=
  if pos < line.length then do
    let byte ← at? line pos
    if byte.isGap then scanFrom line (pos + 1)
    else do
      let rest ← from? line pos
      let n ← Lexeme.lexemeLength? (chars rest)
      let size := (bytes ((chars rest).take n)).length
      let text ← slice? line pos (pos + size)
      -- a lexeme without bytes would be found again and again
      if 0 < size then do
        let more ← scanFrom line (pos + size)
        return ⟨Lexeme.normalise (chars text), pos⟩ :: more
      else none
  else some []
termination_by line.length - pos

/-- The lexemes of a line. -/
def scan (line : String) : Option (List Lexeme) := scanFrom (bytes line.toList) 0

/-- The texts of the lexemes of a line. -/
def tokenize (line : String) : Option (List String) := do
  let lexemes ← scan line
  return lexemes.map (·.text)

/-- The tokens of a trimmed line, or the first lexeme that belongs to no kind. -/
def tokensOf (line : String) : Look Lexeme (List Token) := do
  let lexemes ← look (scan (trim line))
  told (lexemes.mapM Token.ofLexeme)

/-- A text with every operator word replaced. -/
def lower (text : String) : Option String := do
  let tokens ← tokenize text
  return spaced (tokens.map Target.symbol)

/-! ## No look fails -/

theorem utf8Size_of_isGap {c : Char} (h : Text.isGap c = true) : c.utf8Size = 1 := by
  simp only [Text.isGap, isPhraseSpace, Bool.or_eq_true, beq_iff_eq] at h
  rcases h with ((((h | h) | h) | h) | h) | h <;> rw [h] <;> rfl

theorem scanFrom_pass (n offset : Nat) (cs : List Char) :
    Lexeme.scanFrom n offset cs
      = Lexeme.scanFrom 0 (offset + (bytes (cs.take n)).length) (cs.drop n) := by
  induction n generalizing offset cs with
  | zero => rfl
  | succ n ih =>
    cases cs with
    | nil => rfl
    | cons c cs =>
      rw [Lexeme.scanFrom, ih, List.take_succ_cons, List.drop_succ_cons, bytes_cons,
        List.length_append, length_charBytes, Nat.add_assoc]

/-- From a position between two characters the scanner yields the lexemes of what is behind it. -/
theorem scanFrom_eq (front back : List Char) :
    scanFrom (bytes (front ++ back)) (bytes front).length
      = some (Lexeme.scanFrom 0 (bytes front).length back) := by
  -- a lexeme is passed over in one go, so the induction is on the length of what is behind
  induction hlen : back.length using Nat.strongRecOn generalizing front back with
  | ind len ih =>
    cases back with
    | nil =>
      rw [scanFrom, if_neg (by simp)]
      rfl
    | cons c cs =>
      have hpos : (bytes front).length < (bytes (front ++ c :: cs)).length := by
        have := length_bytes_cons_pos c cs
        rw [bytes_append, List.length_append]
        omega
      have hat : at? (bytes (front ++ c :: cs)) (bytes front).length = some (.lead c) := by
        rw [at?_natCast, bytes_append, List.getElem?_append_right (Nat.le_refl _), Nat.sub_self]
        rfl
      have hrest : from? (bytes (front ++ c :: cs)) (bytes front).length
          = some (bytes (c :: cs)) := by
        rw [from?_natCast (Nat.le_of_lt hpos), bytes_append, List.drop_left]
      rw [scanFrom, if_pos hpos, hat, Lexeme.scanFrom]
      cases hc : Text.isGap c with
      | true =>
        have hone := utf8Size_of_isGap hc
        have hnext := ih cs.length (by simp [← hlen]) (front ++ [c]) cs rfl
        simp only [bytes_append, bytes_cons, bytes_nil, List.append_nil, List.length_append,
          length_charBytes, hone, List.append_assoc] at hnext
        simpa [Byte.isGap, hc, hone] using hnext
      | false =>
        obtain ⟨n, hn⟩ := Lexeme.lexemeLength?_some hc cs
        have hsize : 0 < (bytes ((c :: cs).take (n + 1))).length := length_bytes_cons_pos c _
        have hcut : c :: cs = (c :: cs).take (n + 1) ++ cs.drop n :=
          (List.take_append_drop (n + 1) (c :: cs)).symm
        have htake : slice? (bytes (front ++ c :: cs)) (bytes front).length
            ((bytes front).length + (bytes ((c :: cs).take (n + 1))).length)
              = some (bytes ((c :: cs).take (n + 1))) := by
          have hbytes : bytes (c :: cs) = bytes ((c :: cs).take (n + 1)) ++ bytes (cs.drop n) := by
            rw [← bytes_append, ← hcut]
          rw [bytes_append, hbytes, slice?_middle]
        have hnext := ih (cs.drop n).length
          (by simp only [← hlen, List.length_drop, List.length_cons]; omega)
          (front ++ (c :: cs).take (n + 1)) (cs.drop n) rfl
        rw [List.append_assoc, ← hcut, bytes_append front (List.take _ _),
          List.length_append] at hnext
        have hbehind : (bytes front).length + (bytes ((c :: cs).take (n + 1))).length
            = (bytes front).length + c.utf8Size + (bytes (cs.take n)).length := by
          rw [List.take_succ_cons, bytes_cons, List.length_append, length_charBytes]
          omega
        simp only [Byte.isGap, hc, Option.bind_eq_bind, Option.bind_some, Bool.false_eq_true,
          if_false, hrest, chars_bytes, hn, htake, hsize, if_true, hnext]
        rw [scanFrom_pass n, ← hbehind]
        rfl

@[simp] theorem scan_eq (line : String) : scan line = some (Lexeme.scan line) :=
  scanFrom_eq [] line.toList

@[simp] theorem tokenize_eq (line : String) : tokenize line = some (Courtesy.tokenize line) := by
  rw [tokenize, scan_eq]
  rfl

@[simp] theorem tokensOf_eq (line : String) : tokensOf line = told (Token.ofLine line) := by
  rw [tokensOf, scan_eq]
  rfl

@[simp] theorem lower_eq (text : String) : lower text = some (Target.lower text) := by
  rw [lower, tokenize_eq]
  rfl

end Courtesy.Positional
