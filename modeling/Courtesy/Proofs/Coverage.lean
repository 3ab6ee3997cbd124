import Courtesy.Proofs.Locations

/-!
# What a line is made of

Every lexeme of a line is read from a part of it (`Text.Span`), and `Lexeme.Covers` says how these
parts lie: in the order of the lexemes, apart from each other, and over every character that is no
white space. It is proved by induction on how the line falls into lexemes, from the place that has
been reached on (`Scans.exists_spans`). Main statement: every byte of a line belongs to a lexeme or
is white space, and the text of a lexeme is what stands in the line, but for the white space inside
of phrases (`scan_covers`).
-/

namespace Courtesy

/-! ## Parts of a line -/

/-- A part of a line between two other texts, so that it starts and ends between characters. -/
structure Text.Span (line : String) where
  front : String
  text : String
  back : String
  line_eq : line = front ++ (text ++ back)

namespace Text.Span

variable {line : String} (s : Span line)

/-- The number of bytes in front of a part. -/
def start : Nat := s.front.utf8ByteSize

/-- The number of bytes up to the end of a part. -/
def stop : Nat := s.start + s.text.utf8ByteSize

/-- A byte of the line belongs to a part. -/
def Holds (i : Nat) : Prop := s.start ≤ i ∧ i < s.stop

/-- A part holds a space or a tab and does not start with a quote. -/
def isParted : Bool :=
  s.text.toList.any (fun c => c == ' ' || c == '\t') && s.text.toList.head? != some '"'

theorem start_isValid : String.Pos.Raw.IsValid line ⟨s.start⟩ :=
  String.Pos.Raw.isValid_iff_exists_append.2 ⟨s.front, s.text ++ s.back, s.line_eq, rfl⟩

theorem stop_isValid : String.Pos.Raw.IsValid line ⟨s.stop⟩ := by
  refine String.Pos.Raw.isValid_iff_exists_append.2 ⟨s.front ++ s.text, s.back, ?_, ?_⟩
  · rw [String.append_assoc]
    exact s.line_eq
  · rw [String.rawEndPos, String.utf8ByteSize_append]
    rfl

theorem toList_eq : line.toList = s.front.toList ++ (s.text.toList ++ s.back.toList) := by
  conv => lhs; rw [s.line_eq]
  rw [String.toList_append, String.toList_append]

end Text.Span

open Text

/-! ## Lexemes and their parts -/

namespace Lexeme

/-- The number of bytes of a list of characters. -/
def width (cs : List Char) : Nat := (String.ofList cs).utf8ByteSize

@[simp] theorem width_nil : width [] = 0 := rfl

@[simp] theorem width_append (as bs : List Char) : width (as ++ bs) = width as + width bs := by
  rw [width, String.ofList_append, String.utf8ByteSize_append]
  rfl

@[simp] theorem width_cons (c : Char) (cs : List Char) :
    width (c :: cs) = c.utf8Size + width cs := by
  rw [width, String.ofList_cons, String.utf8ByteSize_append, String.utf8ByteSize_singleton]
  rfl

theorem width_pos {cs : List Char} (h : cs ≠ []) : 0 < width cs := by
  obtain ⟨c, cs, rfl⟩ := List.exists_cons_of_ne_nil h
  have hpos := c.utf8Size_pos
  rw [width_cons]
  omega

theorem width_toList (s : String) : width s.toList = s.utf8ByteSize := by
  rw [width, String.ofList_toList]

/-- The lexeme that is read from a part of a line. -/
def ofSpan {line : String} (s : Span line) : Lexeme := ⟨normalise s.text.toList, s.start⟩

/-- How the lexemes of a line from its byte `n` on lie in the line. -/
structure Covers (line : String) (n : Nat) (ls : List Lexeme) (spans : List (Span line)) :
    Prop where
  lexemes : ls = spans.map ofSpan
  pieces : ∀ s ∈ spans, Piece s.text.toList s.back.toList
  behind : ∀ s ∈ spans, n ≤ s.start
  apart : spans.Pairwise fun s t => s.stop ≤ t.start
  solid : ∀ front c back, line.toList = front ++ c :: back → n ≤ width front → isGap c = false →
    ∃ s ∈ spans, s.Holds (width front)

/-- Two ways to cut one text, the second cut not in front of the first. -/
theorem exists_between {as bs cs ds : List Char} (h : as ++ bs = cs ++ ds)
    (hle : width as ≤ width cs) : ∃ xs, cs = as ++ xs ∧ bs = xs ++ ds := by
  rcases List.append_eq_append_iff.1 h with ⟨xs, hcs, hbs⟩ | ⟨xs, has, hds⟩
  · exact ⟨xs, hcs, hbs⟩
  · cases xs with
    | nil => exact ⟨[], by simpa using has.symm, by simpa using hds.symm⟩
    | cons x xs =>
      have hpos := x.utf8Size_pos
      rw [has, width_append, width_cons] at hle
      omega

section

variable {line : String} {front : List Char}

theorem Covers.gap {c : Char} {cs : List Char} {ls : List Lexeme} {spans : List (Span line)}
    (hline : line.toList = front ++ c :: cs) (hc : isGap c = true)
    (h : Covers line (width (front ++ [c])) ls spans) : Covers line (width front) ls spans := by
  refine ⟨h.lexemes, h.pieces, fun s hs => ?_, h.apart, fun front' d back hcut hle hd => ?_⟩
  · have hbehind := h.behind s hs
    rw [width_append] at hbehind
    omega
  · apply h.solid front' d back hcut ?_ hd
    obtain ⟨xs, rfl, hxs⟩ := exists_between (hline.symm.trans hcut) hle
    cases xs with
    | nil =>
      cases hxs
      rw [hc] at hd
      cases hd
    | cons x xs =>
      cases hxs
      simp only [width_append, width_cons, width_nil]
      omega

theorem Covers.piece {p rest : List Char} {ls : List Lexeme} {spans : List (Span line)}
    (hline : line.toList = front ++ (p ++ rest)) (hp : Piece p rest)
    (h : Covers line (width (front ++ p)) ls spans) :
    ∃ s : Span line, Covers line (width front) (⟨normalise p, width front⟩ :: ls) (s :: spans) := by
  have hcut : line = String.ofList front ++ (String.ofList p ++ String.ofList rest) := by
    rw [← String.toList_inj, hline]
    simp
  have hstop : (⟨String.ofList front, String.ofList p, String.ofList rest, hcut⟩ : Span line).stop =
      width (front ++ p) := (width_append front p).symm
  refine ⟨⟨String.ofList front, String.ofList p, String.ofList rest, hcut⟩, ?_, ?_, ?_, ?_, ?_⟩
  · rw [List.map_cons, ← h.lexemes, ofSpan, String.toList_ofList]
    rfl
  · refine List.forall_mem_cons.2 ⟨?_, h.pieces⟩
    rwa [String.toList_ofList, String.toList_ofList]
  · refine List.forall_mem_cons.2 ⟨Nat.le_refl _, fun s hs => ?_⟩
    have hbehind := h.behind s hs
    rw [width_append] at hbehind
    omega
  · refine List.pairwise_cons.2 ⟨fun s hs => ?_, h.apart⟩
    rw [hstop]
    exact h.behind s hs
  · intro front' d back hcut' hle hd
    rcases Nat.lt_or_ge (width front') (width (front ++ p)) with hlt | hge
    · exact ⟨_, List.mem_cons_self, hle, hstop ▸ hlt⟩
    · obtain ⟨s, hs, hholds⟩ := h.solid front' d back hcut' hge hd
      exact ⟨s, List.mem_cons_of_mem _ hs, hholds⟩

theorem scanFrom_piece {p rest : List Char} (hhead : ∀ c ∈ p.head?, isGap c = false)
    (hlen : lexemeLength? (p ++ rest) = some p.length) (offset : Nat) :
    scanFrom 0 offset (p ++ rest) =
      ⟨normalise p, offset⟩ :: scanFrom 0 (offset + width p) rest := by
  have hskip : ∀ (cs : List Char) (n : Nat),
      scanFrom cs.length n (cs ++ rest) = scanFrom 0 (n + width cs) rest := by
    intro cs
    induction cs with
    | nil => exact fun n => rfl
    | cons c cs ih =>
      intro n
      rw [List.cons_append, List.length_cons, scanFrom, ih, width_cons, Nat.add_assoc]
  cases p with
  | nil => exact absurd (lexemeLength?_takes hlen).1 (Nat.lt_irrefl 0)
  | cons c p =>
    rw [List.cons_append, List.length_cons] at hlen
    rw [List.cons_append, scanFrom, hhead c rfl, hlen]
    simp only [Bool.false_eq_true, if_false]
    rw [hskip, List.take_succ_cons, List.take_left, width_cons, Nat.add_assoc]

/-- From any place that the scan reaches, the lexemes that follow lie behind each other in the
line. -/
theorem Scans.exists_spans {cs : List Char} {ps : List (List Char)} (h : Scans cs ps)
    (front : List Char) (hline : line.toList = front ++ cs) :
    ∃ spans, Covers line (width front) (scanFrom 0 (width front) cs) spans := by
  induction h generalizing front with
  | nil =>
    refine ⟨[], ?_⟩
    rw [scanFrom]
    refine ⟨rfl, List.forall_mem_nil _, List.forall_mem_nil _, .nil,
      fun front' c back hcut hle _ => ?_⟩
    obtain ⟨xs, -, hxs⟩ := exists_between (hline.symm.trans hcut) hle
    cases xs <;> cases hxs
  | @gap c cs ps hc _ ih =>
    have hmore : line.toList = (front ++ [c]) ++ cs := by
      rw [hline, List.append_assoc]
      rfl
    obtain ⟨spans, hspans⟩ := ih _ hmore
    refine ⟨spans, ?_⟩
    rw [scanFrom, if_pos hc]
    have hwidth : width (front ++ [c]) = width front + c.utf8Size := by simp
    rw [hwidth] at hspans
    exact Covers.gap hline hc (by rwa [hwidth])
  | @piece p rest ps hhead hlen _ ih =>
    have hmore : line.toList = (front ++ p) ++ rest := by rw [hline, List.append_assoc]
    obtain ⟨spans, hspans⟩ := ih _ hmore
    obtain ⟨s, hs⟩ := Covers.piece hline (piece_of_length hhead hlen) hspans
    refine ⟨s :: spans, ?_⟩
    rw [scanFrom_piece hhead hlen, ← width_append]
    exact hs

end

theorem exists_covers (line : String) : ∃ spans, Covers line 0 (scan line) spans := by
  obtain ⟨ps, hps⟩ := exists_scans line.toList
  exact hps.exists_spans [] rfl

/-! ## Bytes and characters -/

/-- The bytes of white space between lexemes: space, tab, carriage return, line feed, vertical tab
and form feed. -/
def gapBytes : List UInt8 := [0x20, 0x09, 0x0d, 0x0a, 0x0b, 0x0c]

theorem isGap_cases {c : Char} (h : isGap c = true) :
    c = ' ' ∨ c = '\t' ∨ c = '\n' ∨ c = '\r' ∨ c = '\x0c' ∨ c = '\x0b' := by
  simpa [isGap, isPhraseSpace, or_assoc] using h

theorem byte_of_isGap {c : Char} (h : isGap c = true) :
    c.utf8Size = 1 ∧ c.val.toUInt8 ∈ gapBytes := by
  rcases isGap_cases h with rfl | rfl | rfl | rfl | rfl | rfl <;> decide

/-- Every byte of a text belongs to one of its characters. -/
theorem exists_char {cs : List Char} {i : Nat} (h : i < width cs) :
    ∃ front c back, cs = front ++ c :: back ∧ width front ≤ i ∧ i < width front + c.utf8Size := by
  induction cs generalizing i with
  | nil => exact absurd h (Nat.not_lt_zero i)
  | cons c cs ih =>
    rw [width_cons] at h
    rcases Nat.lt_or_ge i c.utf8Size with hlt | hge
    · exact ⟨[], c, cs, rfl, Nat.zero_le i, by simpa using hlt⟩
    · obtain ⟨front, d, back, rfl, hle, hlt⟩ := ih (i := i - c.utf8Size) (by omega)
      refine ⟨c :: front, d, back, rfl, ?_, ?_⟩ <;> rw [width_cons] <;> omega

/-- The byte of a character that has one byte only. -/
theorem getElem?_toByteArray {line : String} {front back : List Char} {c : Char}
    (hline : line.toList = front ++ c :: back) (hc : c.utf8Size = 1) :
    line.toByteArray[width front]? = some c.val.toUInt8 := by
  have hbytes : line.toByteArray =
      front.utf8Encode ++ ([c.val.toUInt8].toByteArray ++ back.utf8Encode) := by
    rw [← String.ofList_toList (s := line), hline, String.toByteArray_ofList,
      List.utf8Encode_append, List.utf8Encode_cons, List.utf8Encode_singleton,
      String.utf8EncodeChar_eq_singleton hc]
  have hsize : front.utf8Encode.size = width front := by
    rw [← String.toByteArray_ofList, String.size_toByteArray]
    rfl
  have hone : [c.val.toUInt8].toByteArray.size = 1 := rfl
  have hbound : width front < line.toByteArray.size := by
    rw [hbytes, ByteArray.size_append, ByteArray.size_append, hsize, hone]
    omega
  rw [getElem?_pos line.toByteArray (width front) hbound]
  simp only [hbytes]
  rw [ByteArray.getElem_append_right (by omega), ByteArray.getElem_append_left (by omega)]
  simp [hsize]

/-- A part that holds the first byte of a character holds the character. -/
theorem exists_inside {line : String} {s : Span line} {front back : List Char} {c : Char}
    (hline : line.toList = front ++ c :: back) (h : s.Holds (width front)) :
    ∃ xs ys, front = s.front.toList ++ xs ∧ s.text.toList = xs ++ c :: ys := by
  have hstart : width s.front.toList ≤ width front := by
    rw [width_toList]
    exact h.1
  obtain ⟨xs, rfl, hrest⟩ := exists_between (s.toList_eq.symm.trans hline) hstart
  have hstop : width xs < width s.text.toList := by
    have hlt := h.2
    rw [width_append, Span.stop, Span.start, ← width_toList, ← width_toList] at hlt
    omega
  obtain ⟨zs, hzs, hmore⟩ := exists_between hrest.symm (Nat.le_of_lt hstop)
  cases zs with
  | nil =>
    rw [hzs, List.append_nil] at hstop
    exact absurd hstop (Nat.lt_irrefl _)
  | cons z zs =>
    obtain ⟨rfl, -⟩ := List.cons.inj hmore
    exact ⟨xs, zs, rfl, hzs⟩

/-- A part that goes on behind a character ends as many bytes behind it. -/
theorem stop_eq_of_inside {line : String} {s : Span line} {front xs ys : List Char} {c : Char}
    (hfront : front = s.front.toList ++ xs) (htext : s.text.toList = xs ++ c :: ys) :
    s.stop = width front + (c.utf8Size + width ys) := by
  rw [Span.stop, Span.start, ← width_toList, ← width_toList, hfront, htext]
  simp only [width_append, width_cons]
  omega

theorem holds_char {line : String} {s : Span line} {front back : List Char} {c : Char}
    (hline : line.toList = front ++ c :: back) (h : s.Holds (width front)) {i : Nat}
    (hle : width front ≤ i) (hlt : i < width front + c.utf8Size) : s.Holds i := by
  refine ⟨Nat.le_trans h.1 hle, ?_⟩
  obtain ⟨xs, ys, hfront, htext⟩ := exists_inside hline h
  have hstop := stop_eq_of_inside hfront htext
  omega

theorem Covers.mem_gapBytes {line : String} {ls : List Lexeme} {spans : List (Span line)}
    (h : Covers line 0 ls spans) {i : Nat} {b : UInt8} (hb : line.toByteArray[i]? = some b)
    (hout : ∀ s ∈ spans, ¬ s.Holds i) : b ∈ gapBytes := by
  have hi : i < width line.toList := by
    obtain ⟨hi, -⟩ := getElem?_eq_some_iff.1 hb
    rwa [String.size_toByteArray, ← width_toList] at hi
  obtain ⟨front, c, back, hline, hle, hlt⟩ := exists_char hi
  cases hc : isGap c with
  | true =>
    obtain ⟨hone, hmem⟩ := byte_of_isGap hc
    have heq : i = width front := by omega
    rw [heq, getElem?_toByteArray hline hone] at hb
    cases hb
    exact hmem
  | false =>
    obtain ⟨s, hs, hholds⟩ := h.solid front c back hline (Nat.zero_le _) hc
    exact absurd (holds_char hline hholds hle hlt) (hout s hs)

/-! ## The text of a lexeme -/

theorem mem_vocabulary_of_phrase {ws : List (List Char)} (h : ws ∈ phrases) :
    spaced (ws.map String.ofList) ∈ Vocabulary.keywords.map (·.1) ++
      Vocabulary.comparisons.map (·.1) := by
  have hall : ∀ ws ∈ phrases, spaced (ws.map String.ofList) ∈
      Vocabulary.keywords.map (·.1) ++ Vocabulary.comparisons.map (·.1) := by decide +kernel
  exact hall ws h

/-- A lexeme is read from a part of a line: it starts where the part starts, and its text is that of
the part. Only a part that holds a space or a tab and is no literal is written anew, and then it is
one of the phrases of the vocabulary. -/
structure ReadFrom {line : String} (l : Lexeme) (s : Span line) : Prop where
  column : l.column = s.start + 1
  nonempty : s.start < s.stop
  start_boundary : String.Pos.Raw.IsValid line ⟨s.start⟩
  stop_boundary : String.Pos.Raw.IsValid line ⟨s.stop⟩
  verbatim : s.isParted = false → l.text = s.text
  phrase : s.isParted = true → l.text = spaced ((words s.text.toList).map String.ofList) ∧
    l.text ∈ Vocabulary.keywords.map (·.1) ++ Vocabulary.comparisons.map (·.1)

theorem readFrom_ofSpan {line : String} {s : Span line} (h : Piece s.text.toList s.back.toList) :
    (ofSpan s).ReadFrom s := by
  refine ⟨rfl, ?_, s.start_isValid, s.stop_isValid, fun hno => ?_, fun hparted => ?_⟩
  · have hpos := width_pos h.ne_nil
    rw [width_toList] at hpos
    exact Nat.lt_add_of_pos_right hpos
  · unfold Span.isParted at hno
    rw [ofSpan, normalise, if_neg (by simp [hno]), String.ofList_toList]
  · have htext : (ofSpan s).text = spaced ((words s.text.toList).map String.ofList) :=
      if_pos hparted
    refine ⟨htext, ?_⟩
    rw [Span.isParted, Bool.and_eq_true, bne_iff_ne] at hparted
    cases h with
    | phrase hws hp _ =>
      rw [htext, words_spells hp]
      exact mem_vocabulary_of_phrase hws
    | literal _ hp =>
      rw [hp] at hparted
      exact absurd rfl hparted.2
    | opened _ hp _ =>
      rw [hp] at hparted
      exact absurd rfl hparted.2
    | ordinary hc hp _ hord =>
      -- no stop is part of the lexeme, and spaces and tabs are stops
      obtain ⟨hsolid, -, -⟩ := hord.piece hc
      rw [← hp] at hsolid
      obtain ⟨d, hd, hspace⟩ := List.any_eq_true.1 hparted.1
      have hstop := hsolid d hd
      rw [Bool.or_eq_true, beq_iff_eq, beq_iff_eq] at hspace
      rcases hspace with rfl | rfl <;> cases hstop

end Lexeme

/-- The scanner loses nothing. The lexemes of a line are read, in order, from parts of it that do
not overlap, and every byte outside of these parts is white space. -/
theorem scan_covers (line : String) :
    ∃ parts : List (Lexeme × Span line),
      parts.map (·.1) = Lexeme.scan line ∧
      (∀ p ∈ parts, p.1.ReadFrom p.2) ∧
      parts.Pairwise (fun p q => p.2.stop ≤ q.2.start) ∧
      ∀ i b, line.toByteArray[i]? = some b → (∀ p ∈ parts, ¬ p.2.Holds i) →
        b ∈ Lexeme.gapBytes := by
  obtain ⟨spans, h⟩ := Lexeme.exists_covers line
  refine ⟨spans.map fun s => (Lexeme.ofSpan s, s), ?_, ?_, ?_, ?_⟩
  · rw [h.lexemes, List.map_map]
    rfl
  · intro p hp
    obtain ⟨s, hs, rfl⟩ := List.mem_map.1 hp
    exact Lexeme.readFrom_ofSpan (h.pieces s hs)
  · exact List.pairwise_map.2 h.apart
  · intro i b hb hout
    apply h.mem_gapBytes hb
    intro s hs
    exact hout (Lexeme.ofSpan s, s) (List.mem_map_of_mem hs)

end Courtesy
