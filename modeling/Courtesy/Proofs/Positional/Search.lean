import Courtesy.Diagnostic.Location
import Courtesy.Proofs.Positional.Scanner

/-!
# Finding a token by byte positions

A token is looked for in the bytes of a line. From one occurrence to the next, the bytes that touch
it are looked at; where one of them belongs to a word, the search goes on behind the first byte of
the occurrence, which may well be inside a character. Every byte that is looked at exists, and what
is found is the best occurrence in the characters of the line: the bytes of a token never match
from the inside of a character.
-/

namespace Courtesy.Positional

open Courtesy.Text

/-- The position of the first occurrence of a run of bytes. -/
def find? (token : List Byte) : List Byte → Option Nat
  | [] => if token.isEmpty then some 0 else none
  | b :: bs => if token.isPrefixOf (b :: bs) then some 0 else (find? token bs).map (· + 1)

/-- Whether a byte belongs to a word. -/
def Byte.isWord : Byte → Bool
  | .lead c => isWordChar c
  | .inner => false

theorem le_of_from? {α : Type} {l r : List α} {a : Nat} (h : from? l a = some r) :
    a ≤ l.length := by
  simp only [from?, slice?, Option.ite_none_right_eq_some] at h
  omega

/-- Whether the byte in front of a position, if any, belongs to no word. -/
def freeBefore (line : List Byte) (pos : Nat) : Option Bool :=
  if pos = 0 then some true else (at? line (pos - 1)).map (!·.isWord)

/-- Whether the byte at a position, if any, belongs to no word. -/
def freeAt (line : List Byte) (pos : Nat) : Option Bool :=
  if pos ≥ line.length then some true else (at? line pos).map (!·.isWord)

/-- The first occurrence from the one at `off` on that touches no word; `first` if there is none. -/
def wholeFrom (token line : List Byte) (first off : Nat) : Option Nat := do
  let before ← freeBefore line off
  let after ← freeAt line (off + token.length)
  if before && after then some off
  else match _h : from? line (off + 1 : Nat) with
    | none => none
    | some rest =>
      match find? token rest with
      | none => some first
      | some next => wholeFrom token line first (off + next + 1)
termination_by line.length - off
decreasing_by
  have := le_of_from? ‹_›
  omega

/-- The byte offset of the best occurrence of a token in a line. -/
def offset? (token line : String) : Option (Option Nat) :=
  let token := bytes token.toList
  let line := bytes line.toList
  match find? token line with
  | none => some none
  | some first => (wholeFrom token line first first).map some

/-- The 1-based column of the best occurrence of a token in a line, zero when there is none. -/
def column (line token : String) : Option Nat :=
  if token == "" then some 0
  else do
    match ← offset? token line with
    | some offset => return offset + 1
    | none => return 0

/-- The nearest of at most `count` lines from the index `i` upwards that hold a token, with the
column. -/
def locateFrom (lines : List String) (token : String) : Nat → Int → Option (Option (Nat × Nat))
  | 0, _ => some none
  | count + 1, i =>
    if i < 0 then some none
    else do
      let line ← at? lines i
      match ← offset? token line with
      | some offset => return some (i.toNat + 1, offset + 1)
      | none => locateFrom lines token count (i - 1)

/-- The line and the column of a token in the nearest line at or above the index `start`. -/
def locate? (lines : List String) (token : String) (start : Int) : Option (Option (Nat × Nat)) :=
  if token == "" || lines.length == 0 then some none
  else
    let last : Int := if start ≥ lines.length then lines.length - 1 else start
    locateFrom lines token Location.lookback last

/-- The column of a token in the line with index `i`, zero when the nearest place is above. -/
def columnAt (lines : List String) (token : String) (i : Nat) : Option Nat := do
  match ← locate? lines token i with
  | some (line, column) => return if line = i + 1 then column else 0
  | none => return 0

/-! ## Bytes and characters -/

theorem bytes_prefix_iff (token cs : List Char) : bytes token <+: bytes cs ↔ token <+: cs := by
  induction token generalizing cs with
  | nil => simp
  | cons t token ih =>
    cases cs with
    | nil => simp [charBytes]
    | cons c cs =>
      rw [List.cons_prefix_cons, ← ih cs, bytes_cons, bytes_cons]
      by_cases htc : t = c
      · subst htc
        simp [List.prefix_append_right_inj]
      · simp [charBytes, htc]

/-! ## What touches an occurrence -/

/-- Whether a text ends in the middle of a word. -/
def endsInWord (cs : List Char) : Bool := cs.getLast?.any isWordChar

theorem utf8Size_of_isWordChar {c : Char} (h : isWordChar c = true) : c.utf8Size = 1 := by
  rw [Char.utf8Size_eq_one_iff, UInt32.le_iff_toNat_le]
  exact Nat.le_trans (toNat_of_isWordChar h).2 (by decide)

/-- The last byte of a character belongs to a word iff the character does. -/
theorem isWord_last_charBytes (c : Char) :
    ∃ front b, charBytes c = front ++ [b] ∧ b.isWord = isWordChar c := by
  cases hn : c.utf8Size - 1 with
  | zero => exact ⟨[], .lead c, by simp [charBytes, hn], rfl⟩
  | succ n =>
    refine ⟨.lead c :: List.replicate n .inner, .inner, ?_, ?_⟩
    · rw [charBytes, hn, List.replicate_succ', List.cons_append]
    · cases hc : isWordChar c with
      | false => rfl
      | true =>
        have := utf8Size_of_isWordChar hc
        omega

theorem freeBefore_eq (front back : List Char) :
    freeBefore (bytes (front ++ back)) (bytes front).length = some (!endsInWord front) := by
  rcases List.eq_nil_or_concat front with rfl | ⟨init, c, rfl⟩
  · rfl
  · obtain ⟨bs, b, hbs, hb⟩ := isWord_last_charBytes c
    have hbytes : bytes (init ++ [c]) = bytes init ++ bs ++ [b] := by
      simp [hbs]
    rw [List.concat_eq_append]
    have hlen : (((bytes (init ++ [c])).length : Nat) : Int) - 1 = (bytes init ++ bs).length := by
      rw [hbytes, List.length_append]
      simp
    rw [freeBefore, if_neg (by simp [hbytes]), hlen, at?_natCast, bytes_append, hbytes,
      List.append_assoc, List.getElem?_append_right (Nat.le_refl _), Nat.sub_self]
    simp [hb, endsInWord]

theorem freeAt_eq (front rest : List Char) :
    freeAt (bytes (front ++ rest)) (bytes front).length = some (Location.freeAfter rest) := by
  unfold freeAt
  rw [bytes_append, List.length_append]
  cases rest with
  | nil => rw [if_pos (by simp)]; rfl
  | cons c cs =>
    have hpos := length_bytes_cons_pos c cs
    rw [if_neg (by omega), at?_natCast, List.getElem?_append_right (Nat.le_refl _), Nat.sub_self]
    rfl

section Occurrences

variable {token : List Char} (htoken : token ≠ [])

include htoken

/-- No occurrence starts inside a character. -/
theorem find?_inner (n : Nat) (bs : List Byte) :
    find? (bytes token) (List.replicate n .inner ++ bs)
      = (find? (bytes token) bs).map (· + n) := by
  induction n with
  | zero => simp
  | succ n ih =>
    have hno : (bytes token).isPrefixOf (.inner :: (List.replicate n .inner ++ bs)) = false := by
      obtain ⟨t, ts, rfl⟩ := List.exists_cons_of_ne_nil htoken
      rw [bytes_cons, charBytes, List.cons_append, List.isPrefixOf_cons_cons]
      rfl
    rw [List.replicate_succ, List.cons_append, find?, hno, ih, if_neg (by simp), Option.map_map]
    rfl

theorem find?_bytes_cons (c : Char) (cs : List Char) :
    find? (bytes token) (bytes (c :: cs))
      = if token <+: c :: cs then some 0
        else (find? (bytes token) (bytes cs)).map (· + c.utf8Size) := by
  have hbytes : bytes (c :: cs)
      = .lead c :: (List.replicate (c.utf8Size - 1) .inner ++ bytes cs) := rfl
  have hsize : c.utf8Size - 1 + 1 = c.utf8Size := Nat.sub_add_cancel c.utf8Size_pos
  rw [hbytes, find?, ← hbytes, find?_inner htoken, Option.map_map]
  simp only [List.isPrefixOf_iff_prefix, bytes_prefix_iff]
  congr 2
  funext k
  simp only [Function.comp_apply]
  omega

/-- Bytes are found where characters are. -/
theorem firstFrom_eq (offset : Nat) (cs : List Char) :
    Location.firstFrom token offset cs
      = (find? (bytes token) (bytes cs)).map (offset + ·) := by
  induction cs generalizing offset with
  | nil =>
    obtain ⟨t, ts, rfl⟩ := List.exists_cons_of_ne_nil htoken
    rfl
  | cons c cs ih =>
    rw [Location.firstFrom, find?_bytes_cons htoken, ih]
    simp only [List.isPrefixOf_iff_prefix]
    split
    · rfl
    · rw [Option.map_map]
      congr 1
      funext k
      simp only [Function.comp_apply]
      omega

/-- Where no token is found, no whole one is. -/
theorem wholeFrom_eq_none (inWord : Bool) (offset : Nat)
    {cs : List Char} (h : Location.firstFrom token offset cs = none) :
    Location.wholeFrom token inWord offset cs = none := by
  induction cs generalizing inWord offset with
  | nil => simp [Location.wholeFrom, htoken]
  | cons c cs ih =>
    rw [Location.firstFrom] at h
    split at h
    · cases h
    · next hno =>
      rw [Location.wholeFrom, if_neg (by simp [hno])]
      exact ih _ _ h

/-- In front of the first occurrence there is no whole one. -/
theorem wholeFrom_first {cs : List Char} {k : Nat}
    (h : find? (bytes token) (bytes cs) = some k) :
    ∃ mid back, cs = mid ++ back ∧ token <+: back ∧ (bytes mid).length = k ∧
      ∀ front offset, Location.wholeFrom token (endsInWord front) offset cs
        = Location.wholeFrom token (endsInWord (front ++ mid)) (offset + k) back := by
  induction cs generalizing k with
  | nil =>
    obtain ⟨t, ts, rfl⟩ := List.exists_cons_of_ne_nil htoken
    cases h
  | cons c cs ih =>
    rw [find?_bytes_cons htoken] at h
    split at h
    · next hhere =>
      cases h
      refine ⟨[], c :: cs, rfl, hhere, rfl, ?_⟩
      intro front offset
      rw [List.append_nil, Nat.add_zero]
    · next hno =>
      obtain ⟨k', hk', rfl⟩ := Option.map_eq_some_iff.mp h
      obtain ⟨mid, back, rfl, hback, rfl, hwhole⟩ := ih hk'
      refine ⟨c :: mid, back, rfl, hback, ?_, ?_⟩
      · rw [bytes_cons, List.length_append, length_charBytes, Nat.add_comm]
      · intro front offset
        have hstep := hwhole (front ++ [c]) (offset + c.utf8Size)
        have hend : endsInWord (front ++ [c]) = isWordChar c := by simp [endsInWord]
        rw [Location.wholeFrom, if_neg (by simp [hno]), ← hend, hstep]
        congr 1
        · simp
        · omega

/-- From one occurrence on, the search by bytes finds what the search by characters finds. -/
theorem wholeFrom_eq (first : Nat) (front : List Char) {back : List Char}
    (hback : token <+: back) :
    wholeFrom (bytes token) (bytes (front ++ back)) first (bytes front).length
      = some ((Location.wholeFrom token (endsInWord front)
        (bytes front).length back).getD first) := by
  -- the next occurrence starts behind this one's first character, so what is behind gets shorter
  induction hlen : back.length using Nat.strongRecOn generalizing front back with
  | ind len ih =>
    obtain ⟨rest, rfl⟩ := hback
    obtain ⟨c, cs, hcs⟩ := List.exists_cons_of_ne_nil (l := token ++ rest) (by simp [htoken])
    have hfrom : from? (bytes (front ++ c :: cs)) ((bytes front).length + 1 : Nat)
        = some (List.replicate (c.utf8Size - 1) .inner ++ bytes cs) := by
      have hpos := length_bytes_cons_pos c cs
      rw [bytes_append, from?_natCast (by rw [List.length_append]; omega)]
      simp [charBytes, List.drop_append]
    have hafter : freeAt (bytes (front ++ (token ++ rest)))
        ((bytes front).length + (bytes token).length) = some (Location.freeAfter rest) := by
      rw [← List.append_assoc, ← List.length_append, ← bytes_append, freeAt_eq]
    have hhere : token.isPrefixOf (c :: cs) = true := by
      rw [List.isPrefixOf_iff_prefix, ← hcs]
      exact List.prefix_append token rest
    have hrest : (c :: cs).drop token.length = rest := by
      rw [← hcs, List.drop_left]
    rw [wholeFrom, freeBefore_eq, hafter, hcs, Location.wholeFrom, hhere, hrest]
    simp only [Option.bind_eq_bind, Option.bind_some, Bool.and_true]
    split
    · rfl
    · rw [hfrom]
      dsimp only
      rw [find?_inner htoken]
      cases hfind : find? (bytes token) (bytes cs) with
      | none =>
        have hnone := firstFrom_eq htoken ((bytes front).length + c.utf8Size) cs
        rw [hfind] at hnone
        rw [wholeFrom_eq_none htoken _ _ hnone]
        rfl
      | some k =>
        obtain ⟨mid, back, rfl, hback, rfl, hwhole⟩ := wholeFrom_first htoken hfind
        have hshort : back.length < len := by
          rw [← hlen, hcs]
          simp only [List.length_cons, List.length_append]
          omega
        have hnext := ih back.length hshort (front ++ c :: mid) hback rfl
        have hsize := c.utf8Size_pos
        have hpos : (bytes (front ++ c :: mid)).length
            = (bytes front).length + ((bytes mid).length + (c.utf8Size - 1)) + 1 := by
          simp only [bytes_append, bytes_cons, List.length_append, length_charBytes]
          omega
        have hend : endsInWord (front ++ [c]) = isWordChar c := by simp [endsInWord]
        have hstep := hwhole (front ++ [c]) ((bytes front).length + c.utf8Size)
        rw [hend, List.append_assoc, List.singleton_append] at hstep
        rw [List.append_assoc, List.cons_append, hpos] at hnext
        rw [Option.map_some]
        dsimp only
        rw [hnext, hstep]
        congr 3
        omega

end Occurrences

/-! ## No look fails -/

theorem offset?_eq {token : String} (htoken : token ≠ "") (line : String) :
    offset? token line = some (Location.offset? token line) := by
  have hchars : token.toList ≠ [] := by simpa using htoken
  have hfirst := firstFrom_eq hchars 0 line.toList
  unfold offset? Location.offset?
  cases hfind : find? (bytes token.toList) (bytes line.toList) with
  | none =>
    rw [hfind] at hfirst
    dsimp only
    rw [hfind, wholeFrom_eq_none hchars _ _ hfirst, hfirst]
    rfl
  | some first =>
    obtain ⟨mid, back, hline, hback, rfl, hwhole⟩ := wholeFrom_first hchars hfind
    have hstart := hwhole [] 0
    rw [Nat.zero_add, List.nil_append] at hstart
    change Location.wholeFrom _ false _ _ = _ at hstart
    rw [hfind, Option.map_some, Nat.zero_add] at hfirst
    dsimp only
    rw [hfind, hfirst, hstart, hline]
    dsimp only
    rw [wholeFrom_eq hchars _ mid hback]
    cases Location.wholeFrom token.toList (endsInWord mid) (bytes mid).length back <;> rfl

@[simp] theorem column_eq (line token : String) :
    column line token = some (Location.column line token) := by
  unfold column Location.column
  by_cases htoken : token = ""
  · simp [htoken]
  · rw [if_neg (by simp [htoken]), if_neg (by simp [htoken]), offset?_eq htoken]
    cases Location.offset? token line <;> rfl

/-- Going up from a line that exists, the lines that are read exist. -/
theorem locateFrom_eq {lines : List String} {token : String} (htoken : token ≠ "") {last : Nat}
    (hlast : last < lines.length) (count back : Nat) :
    locateFrom lines token count ((last : Int) - back)
      = some ((List.range' back count).findSome? fun back =>
        if back ≤ last then do
          let line ← lines[last - back]?
          let offset ← Location.offset? token line
          return (last - back + 1, offset + 1)
        else none) := by
  induction count generalizing back with
  | zero => rfl
  | succ count ih =>
    have hup : (last : Int) - back - 1 = last - (back + 1 : Nat) := by omega
    rw [locateFrom, List.range'_succ, List.findSome?_cons, hup, ih (back + 1)]
    by_cases hback : last < back
    · rw [if_pos (by omega), if_neg (by omega)]
      -- nothing is above the first line, so no further line is read either
      symm
      simp only [Option.some.injEq, List.findSome?_eq_none_iff, List.mem_range'_1]
      intro k hk
      rw [if_neg (by omega)]
    · have hpos : (last : Int) - back = (last - back : Nat) := by omega
      have hin : last - back < lines.length := by omega
      rw [if_neg (by omega), if_pos (by omega), hpos, at?_eq_getElem hin,
        List.getElem?_eq_getElem hin]
      simp only [Option.bind_eq_bind, Option.bind_some, offset?_eq htoken]
      cases Location.offset? token lines[last - back] with
      | none => rfl
      | some offset => simp

theorem locate?_eq (lines : List String) (token : String) (i : Nat) :
    locate? lines token i = some (Location.locate? lines token i) := by
  unfold locate? Location.locate?
  by_cases htoken : token = ""
  · simp [htoken]
  have hne : (token == "") = false := by simpa using htoken
  have hi : ¬ (i : Int) < 0 := by omega
  rw [hne, Bool.false_or, Bool.false_or, decide_eq_false hi, if_neg (by simp : ¬ false = true)]
  by_cases hlines : lines.length = 0
  · rw [List.length_eq_zero_iff] at hlines
    subst hlines
    symm
    simp [List.findSome?_eq_none_iff]
  · have hlast : (if (i : Int) ≥ lines.length then (lines.length : Int) - 1 else i)
        = (min i (lines.length - 1) : Nat) - (0 : Nat) := by
      split <;> omega
    rw [if_neg (by simpa using hlines)]
    dsimp only
    rw [hlast, locateFrom_eq htoken (by omega), List.range_eq_range']
    rfl

@[simp] theorem columnAt_eq (lines : List String) (token : String) (i : Nat) :
    columnAt lines token i = some (Location.columnAt lines token i) := by
  rw [columnAt, locate?_eq, Location.columnAt]
  rcases Location.locate? lines token i with _ | ⟨line, column⟩ <;> rfl

end Courtesy.Positional
