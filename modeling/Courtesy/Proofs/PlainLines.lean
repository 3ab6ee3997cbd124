import Courtesy.Yaml.Document
import Courtesy.Yaml.Layout

/-!
# Plain scalars on one line

Which texts can be put behind a key, up to the end of the line, and are read as they stand.
-/

namespace Courtesy.Yaml

theorem Cursor.advance_append (xs ys : List Char) (m : Mark) :
    Cursor.advance xs.length ⟨xs ++ ys, m⟩ =
      ⟨ys, { m with column := m.column + xs.length }⟩ := by
  simp [Cursor.advance]

theorem isGap_of_isBlank {c : Char} (h : isBlank c) : isGap c := by
  simp [isGap, h]

/-! ## Gaps on a line -/

namespace Gap

theorem read_stop (indent : Option Nat) (fuel : Nat) (g : Gap) {x : Char} (hx : isGap x = false)
    (rest : List Char) (m : Mark) :
    read indent fuel g ⟨x :: rest, m⟩ = some (g, ⟨x :: rest, m⟩) := by
  simp only [isGap, Bool.or_eq_false_iff] at hx
  cases fuel <;> simp [read, Cursor.peek?, hx]

/-- Blanks are gathered one by one. -/
theorem read_blanks_append (indent : Option Nat) {bs : List Char} (hbs : ∀ b ∈ bs, isBlank b)
    (cs front : List Char) (fuel : Nat) (m : Mark) :
    read indent (bs.length + fuel) { blanks := front } ⟨bs ++ cs, m⟩ =
      read indent fuel { blanks := front ++ bs }
        ⟨cs, { m with column := m.column + bs.length }⟩ := by
  induction bs generalizing front m with
  | nil => simp
  | cons b bs ih =>
    have hb : isBlank b := hbs b (by simp)
    have hstep := ih (fun b hb => hbs b (by simp [hb])) (front ++ [b])
      { m with column := m.column + 1 }
    rw [List.length_cons, Nat.add_right_comm]
    simpa [read, Cursor.peek?, hb, Cursor.advance, Nat.add_assoc, Nat.add_comm 1] using hstep

section

variable (indent : Option Nat) {bs : List Char} (hbs : ∀ b ∈ bs, isBlank b) {x : Char}
  (hx : isGap x = false) (rest front : List Char) {fuel : Nat} (hfuel : bs.length < fuel) (m : Mark)

include hbs hx hfuel

theorem read_blanks :
    read indent fuel { blanks := front } ⟨bs ++ x :: rest, m⟩ =
      some ({ blanks := front ++ bs },
        ⟨x :: rest, { m with column := m.column + bs.length }⟩) := by
  obtain ⟨fuel, rfl⟩ := Nat.exists_eq_add_of_lt hfuel
  rw [Nat.add_assoc, read_blanks_append indent hbs, read_stop _ _ _ hx]

theorem read_blanks_break :
    read indent fuel { blanks := front } ⟨bs ++ '\n' :: x :: rest, m⟩ =
      some (⟨[], ['\n'], [], true⟩, ⟨x :: rest, ⟨m.line + 1, 0⟩⟩) := by
  obtain ⟨fuel, rfl⟩ := Nat.exists_eq_add_of_lt hfuel
  rw [Nat.add_assoc, read_blanks_append indent hbs]
  exact read_stop indent fuel ⟨[], ['\n'], [], true⟩ hx rest _

end

end Gap

namespace Plain

theorem blanks_cases (cs : List Char) :
    (∀ b ∈ cs, isBlank b) ∨
      ∃ bs d more, (∀ b ∈ bs, isBlank b) ∧ isBlank d = false ∧ cs = bs ++ d :: more := by
  induction cs with
  | nil => exact .inl (by simp)
  | cons c cs ih =>
    cases hc : isBlank c with
    | false => exact .inr ⟨[], c, cs, by simp, hc, rfl⟩
    | true =>
      obtain hall | ⟨bs, d, more, hbs, hd, rfl⟩ := ih
      · exact .inl (by simpa [hc] using hall)
      · exact .inr ⟨c :: bs, d, more, by simpa [hc] using hbs, hd, rfl⟩

variable {cs : List Char}

/-- What a line gives as a plain scalar, with blanks in front of it that belong to the scalar if
more of it follows. Blanks at the end do not belong to it, a comment ends it, and a colon that a
blank or nothing follows makes it useless. -/
def valueFrom : List Char → List Char → Option (List Char)
  | _, [] => some []
  | blanks, c :: cs =>
    if isBlank c then valueFrom (blanks ++ [c]) cs
    else if c == '#' && !blanks.isEmpty then some []
    else if c == ':' && cs.head?.all isBlank then none
    else (valueFrom [] cs).map (blanks ++ c :: ·)

theorem valueFrom_blanks {bs : List Char} (hbs : ∀ b ∈ bs, isBlank b) (blanks cs : List Char) :
    valueFrom blanks (bs ++ cs) = valueFrom (blanks ++ bs) cs := by
  induction bs generalizing blanks with
  | nil => rw [List.append_nil, List.nil_append]
  | cons b bs ih =>
    rw [List.forall_mem_cons] at hbs
    rw [List.cons_append, valueFrom, if_pos hbs.1, ih hbs.2, List.append_assoc,
      List.singleton_append]

theorem valueFrom_solid {c : Char} (hc : isBlank c = false) {blanks : List Char}
    (hhash : c = '#' → blanks = []) :
    valueFrom blanks (c :: cs) = if c == ':' && cs.head?.all isBlank then none
      else (valueFrom [] cs).map (blanks ++ c :: ·) := by
  have hcomment : (c == '#' && !blanks.isEmpty) = false := by
    by_cases h : c = '#'
    · simp [hhash h]
    · simp [h]
  rw [valueFrom, hc, hcomment, if_neg Bool.false_ne_true, if_neg Bool.false_ne_true]

theorem valueFrom_map {c : Char} (hc : isBlank c = false) (hhash : c ≠ '#') (blanks : List Char) :
    valueFrom blanks (c :: cs) = (valueFrom [] (c :: cs)).map (blanks ++ ·) := by
  rw [valueFrom_solid hc fun h => absurd h hhash, valueFrom_solid hc fun _ => rfl]
  split
  · rfl
  · rw [Option.map_map]
    rfl

/-- What can stand behind the first run of characters of a line: nothing but blanks, blanks and more
characters, or a colon. -/
theorem run_line (hbreaks : ∀ c ∈ cs, isBreak c = false) (rest : List Char) :
    ∃ tail, cs = run false (cs ++ '\n' :: rest) ++ tail ∧
      valueFrom [] cs = (valueFrom [] tail).map (run false (cs ++ '\n' :: rest) ++ ·) ∧
      ((∀ b ∈ tail, isBlank b) ∨
        (∃ b bs d more, (∀ e ∈ b :: bs, isBlank e) ∧ isBlank d = false ∧
          tail = b :: bs ++ d :: more) ∨
        ∃ more, tail = ':' :: more ∧ more.head?.all isBlank) := by
  induction cs with
  | nil => exact ⟨[], rfl, rfl, .inl (by simp)⟩
  | cons c cs ih =>
    have hgap : isGap c = isBlank c := by simp [isGap, hbreaks c]
    have hhead : (cs ++ '\n' :: rest).head?.all isGap = cs.head?.all isBlank := by
      cases cs with
      | nil => rfl
      | cons d ds => simp [isGap, hbreaks d]
    rw [List.cons_append, run, hgap, hhead]
    by_cases hc : isBlank c
    · rw [if_pos hc]
      refine ⟨c :: cs, rfl, by simp, ?_⟩
      obtain hall | ⟨bs, d, more, hbs, hd, rfl⟩ := blanks_cases cs
      · exact .inl (by simpa [hc] using hall)
      · exact .inr (.inl ⟨c, bs, d, more, by simpa [hc] using hbs, hd, rfl⟩)
    · rw [if_neg hc]
      by_cases hcolon : c == ':' && cs.head?.all isBlank
      · rw [if_pos hcolon]
        simp only [Bool.and_eq_true, beq_iff_eq] at hcolon
        exact ⟨c :: cs, rfl, by simp, .inr (.inr ⟨cs, by rw [hcolon.1], hcolon.2⟩)⟩
      · rw [if_neg hcolon]
        obtain ⟨tail, hsplit, hvalue, htail⟩ := ih fun d hd => hbreaks d (by simp [hd])
        refine ⟨tail, congrArg (c :: ·) hsplit, ?_, htail⟩
        rw [valueFrom_solid (Bool.eq_false_iff.2 hc) fun _ => rfl, if_neg hcolon, hvalue,
          Option.map_map]
        rfl

section words

variable {indent : Nat} {c : Char} {w : List Char} {m : Mark} (hcolumn : m.column ≠ 0)
  (hhash : c ≠ '#') (fuel : Nat) (text blanks : List Char)
include hcolumn hhash

/-- Reading a word that a gap follows. -/
theorem readFrom_word {more : List Char} (hrun : run false (c :: w ++ more) = c :: w)
    (hmore : more.head?.any isGap) :
    readFrom false indent (fuel + 1) text { blanks := blanks } ⟨c :: w ++ more, m⟩ =
      (Gap.read (some indent) (more.length + 1) {}
        ⟨more, { m with column := m.column + (c :: w).length }⟩).bind fun r =>
          if r.2.column < indent then some ⟨text ++ (blanks ++ c :: w), r.2, r.1.broken⟩
          else readFrom false indent fuel (text ++ (blanks ++ c :: w)) r.1 r.2 := by
  have hstop (x : Char) : Cursor.atMarker x ⟨c :: w ++ more, m⟩ = false := by
    simp [Cursor.atMarker, Cursor.column, hcolumn]
  have hstart : Cursor.starts ⟨c :: w ++ more, m⟩ '#' = false := by
    simp [Cursor.starts, hhash]
  rw [readFrom, hstop, hstop, hstart]
  simp only [hrun, Cursor.advance_append, List.isEmpty_cons, Cursor.next, hmore,
    ← List.append_assoc text, Bool.not_false, Bool.true_and, decide_eq_true_eq]
  rfl

/-- A word that only blanks follow up to the end of the line is the last one. -/
theorem readFrom_lastWord (hindent : 0 < indent) {bs : List Char} (hbs : ∀ b ∈ bs, isBlank b)
    {x : Char} (hx : isGap x = false) (rest : List Char)
    (hrun : run false (c :: w ++ (bs ++ '\n' :: x :: rest)) = c :: w) :
    readFrom false indent (fuel + 1) text { blanks := blanks }
        ⟨c :: w ++ (bs ++ '\n' :: x :: rest), m⟩ =
      some ⟨text ++ (blanks ++ c :: w), ⟨x :: rest, ⟨m.line + 1, 0⟩⟩, true⟩ := by
  have hgap : (bs ++ '\n' :: x :: rest).head?.any isGap := by
    cases bs with
    | nil => rfl
    | cons b bs => exact isGap_of_isBlank (hbs b (by simp))
  rw [readFrom_word hcolumn hhash fuel text blanks hrun hgap,
    Gap.read_blanks_break _ hbs hx rest [] (by simp only [List.length_append]; omega)]
  exact if_pos hindent

/-- Behind a word and blanks the next word is read. -/
theorem readFrom_nextWord (hm : indent ≤ m.column) {b : Char} {bs : List Char}
    (hbs : ∀ e ∈ b :: bs, isBlank e) {d : Char} (hd : isGap d = false) (more : List Char)
    (hrun : run false (c :: w ++ (b :: bs ++ d :: more)) = c :: w) :
    readFrom false indent (fuel + 1) text { blanks := blanks }
        ⟨c :: w ++ (b :: bs ++ d :: more), m⟩ =
      readFrom false indent fuel (text ++ (blanks ++ c :: w)) { blanks := b :: bs }
        ⟨d :: more, ⟨m.line, m.column + (c :: w).length + (b :: bs).length⟩⟩ := by
  have hgap : (b :: bs ++ d :: more).head?.any isGap := isGap_of_isBlank (hbs b (by simp))
  have hcolumn' : ¬ m.column + (c :: w).length + (b :: bs).length < indent := by omega
  rw [readFrom_word hcolumn hhash fuel text blanks hrun hgap,
    Gap.read_blanks _ hbs hd more [] (by simp only [List.length_append]; omega)]
  exact if_neg hcolumn'

end words

/-- A word that neither a gap nor the end of the text follows is the last one. It may be empty. -/
theorem readFrom_cutWord (indent : Nat) {w : List Char} {y : Char} {m : Mark}
    (hcolumn : m.column ≠ 0) (more : List Char) (hhash : (w ++ y :: more).head? ≠ some '#')
    (hrun : run false (w ++ y :: more) = w) (hy : isGap y = false) (fuel : Nat)
    (text blanks : List Char) :
    readFrom false indent (fuel + 1) text { blanks := blanks } ⟨w ++ y :: more, m⟩ =
      some ⟨if w.isEmpty then text else text ++ (blanks ++ w),
        ⟨y :: more, { m with column := m.column + w.length }⟩, false⟩ := by
  have hstop (x : Char) : Cursor.atMarker x ⟨w ++ y :: more, m⟩ = false := by
    simp [Cursor.atMarker, Cursor.column, hcolumn]
  have hstart : Cursor.starts ⟨w ++ y :: more, m⟩ '#' = false := by
    simpa [Cursor.starts] using hhash
  rw [readFrom, hstop, hstop, hstart]
  simp only [hrun, Cursor.advance_append, Cursor.next, List.head?_cons, Option.any_some, hy,
    ← List.append_assoc text]
  cases w <;> rfl

/-- How a scalar ends on a line: only blanks follow up to the end of the line, or a comment does, or
a colon. The text of the scalar is the value of the line unless a colon follows. -/
inductive Ending (rest : List Char) (line : Nat) (t : List Char) :
    Option (List Char) → Cursor → Bool → Prop where
  | line : Ending rest line t (some t) ⟨rest, ⟨line + 1, 0⟩⟩ true
  | comment (more : List Char) (column : Nat) (hmore : ∀ c ∈ more, isBreak c = false) :
    Ending rest line t (some t) ⟨'#' :: more ++ '\n' :: rest, ⟨line, column⟩⟩ false
  | colon (more : List Char) (m : Mark) (hmore : more.head?.all isBlank) (hcolumn : m.column ≠ 0) :
    Ending rest line t none ⟨':' :: more ++ '\n' :: rest, m⟩ false

theorem Ending.map {rest t : List Char} {line : Nat} {value : Option (List Char)} {cur : Cursor}
    {broken : Bool} (h : Ending rest line t value cur broken) (f : List Char → List Char) :
    Ending rest line (f t) (value.map f) cur broken := by
  cases h with
  | line => exact .line
  | comment more column hmore => exact .comment more column hmore
  | colon more m hmore hcolumn => exact .colon more m hmore hcolumn

/-- A scalar takes the part of a line that is its value. What has been read is `text`, and blanks
may stand in front of what is read next. -/
theorem readFrom_line {indent : Nat} (hindent : 0 < indent) {x : Char} (hx : isGap x = false)
    (rest : List Char) {c : Char} (hc : isBlank c = false)
    (hbreaks : ∀ d ∈ c :: cs, isBreak d = false) {fuel : Nat} (hfuel : cs.length < fuel)
    (text : List Char) {blanks : List Char} (hblanks : c = '#' → blanks ≠ []) {m : Mark}
    (hm : indent ≤ m.column) :
    ∃ t cur broken,
      readFrom false indent fuel text { blanks := blanks } ⟨c :: cs ++ '\n' :: x :: rest, m⟩ =
        some ⟨text ++ t, cur, broken⟩ ∧
      Ending (x :: rest) m.line t (valueFrom blanks (c :: cs)) cur broken := by
  -- each turn reads one word with the blanks in front of it
  induction fuel generalizing c cs text blanks m with
  | zero => omega
  | succ fuel ih =>
    have hcolumn : m.column ≠ 0 := by omega
    by_cases hhash : c = '#'
    · subst hhash
      have hvalue : valueFrom blanks ('#' :: cs) = some [] := by
        simp [valueFrom, hc, hblanks rfl]
      rw [hvalue]
      refine ⟨[], _, _, ?_, .comment cs m.column fun d hd => hbreaks d (List.mem_cons_of_mem _ hd)⟩
      simp [readFrom, Cursor.starts]
    · obtain ⟨tail, hsplit, hvalue, htail⟩ := run_line hbreaks (x :: rest)
      generalize hrun : run false (c :: cs ++ '\n' :: x :: rest) = w at hsplit hvalue
      have hword : (∃ w', w = c :: w') ∨ w = [] ∧ tail = c :: cs := by
        cases w with
        | nil => exact .inr ⟨rfl, hsplit.symm⟩
        | cons d w' => exact .inl ⟨w', by rw [(List.cons.inj hsplit).1]⟩
      rw [valueFrom_map hc hhash, hvalue, hsplit, List.append_assoc]
      rw [hsplit, List.append_assoc] at hrun
      obtain hall | ⟨b, bs, d, more, hbs, hd, rfl⟩ | ⟨more, rfl, hmore⟩ := htail
      · obtain ⟨w, rfl⟩ | ⟨-, rfl⟩ := hword
        · refine ⟨blanks ++ c :: w, _, _,
            readFrom_lastWord hcolumn hhash fuel text blanks hindent hall hx rest hrun, ?_⟩
          have hnone : valueFrom [] tail = some [] := by
            rw [← List.append_nil tail, valueFrom_blanks hall, valueFrom]
          rw [hnone, Option.map_some, Option.map_some, List.append_nil]
          exact .line
        · exact absurd (hall c (by simp)) (by simp [hc])
      · obtain ⟨w, rfl⟩ | ⟨-, hcons⟩ := hword
        · have hmore : ∀ e ∈ d :: more, isBreak e = false := fun e he =>
            hbreaks e (hsplit ▸ List.mem_append_right _ (List.mem_append_right _ he))
          have hdgap : isGap d = false := by simp [isGap, hd, hmore]
          have hlength := congrArg List.length hsplit
          simp only [List.length_cons, List.length_append] at hlength
          obtain ⟨t, cur, broken, hread, hend⟩ := @ih more d hd hmore (by omega)
            (text ++ (blanks ++ c :: w)) (b :: bs) (fun _ => List.cons_ne_nil b bs)
            ⟨m.line, m.column + (c :: w).length + (b :: bs).length⟩ (by simp only; omega)
          refine ⟨blanks ++ c :: w ++ t, cur, broken, ?_, ?_⟩
          · rw [List.append_assoc (b :: bs)] at hrun ⊢
            rw [← List.append_assoc text, ← hread]
            exact readFrom_nextWord hcolumn hhash fuel text blanks hm hbs hdgap _ hrun
          · rw [valueFrom_blanks hbs, Option.map_map, List.append_assoc]
            exact hend.map fun t => blanks ++ (c :: w ++ t)
        · rw [(List.cons.inj hcons).1] at hbs
          exact absurd (hbs c (by simp)) (by simp [hc])
      · have hhead : (w ++ ':' :: (more ++ '\n' :: x :: rest)).head? ≠ some '#' := by
          have hfirst := congrArg List.head? hsplit
          cases w <;> simp_all
        have hcut := readFrom_cutWord indent hcolumn _ hhead hrun rfl fuel text blanks
        have hnone : valueFrom [] (':' :: more) = none := by simp [valueFrom, isBlank, hmore]
        rw [hnone]
        obtain ⟨w, rfl⟩ | ⟨rfl, -⟩ := hword
        · exact ⟨blanks ++ c :: w, _, _, hcut, .colon more _ hmore (by simp only; omega)⟩
        · exact ⟨[], _, _, by simpa using hcut, .colon more m hmore hcolumn⟩

/-! ## Texts that are read as they stand -/

/-- Whether a plain scalar in a block can start with a character. The second argument is what
follows it on the line. -/
def begins (c : Char) (rest : List Char) : Bool :=
  !(isGap c || Layout.isIndicator c)
    || ((c == '-' || c == '?' || c == ':') && rest.head?.any (!isGap ·))

/-- Whether a plain scalar starts on a line. -/
def opens : List Char → Bool
  | [] => false
  | c :: cs => begins c cs && (c :: cs).all (!isBreak ·)

/-- Whether a comment starts behind a blank of a line. -/
def hasComment (cs : List Char) : Bool := Style.adjoins isBlank (· == '#') cs

/-- Whether a line has a colon that a blank or nothing follows, as a key has it. -/
def hasKey : List Char → Bool
  | [] => false
  | c :: cs => (c == ':' && cs.head?.all isBlank) || hasKey cs

/-- Whether a plain scalar takes all of a line. -/
def isLine (cs : List Char) : Bool :=
  opens cs && !hasComment cs && !hasKey cs && !cs.getLast?.any isBlank

theorem valueFrom_append {tail : List Char} (htail : ∀ blanks, valueFrom blanks tail = some [])
    (hhead : tail.head?.all isBlank) (blanks : List Char) :
    valueFrom blanks (cs ++ tail) = valueFrom blanks cs := by
  induction cs generalizing blanks with
  | nil => rw [List.nil_append, htail, valueFrom]
  | cons c cs ih =>
    have hnext : (cs ++ tail).head?.all isBlank = cs.head?.all isBlank := by
      cases cs with
      | nil => exact hhead
      | cons d ds => rfl
    rw [List.cons_append, valueFrom, valueFrom, ih, ih, hnext]

/-- On a line without a comment, a blank is not followed by a hash. -/
theorem not_hash_of_hasComment {c : Char} (hc : isBlank c)
    (hcomment : hasComment (c :: cs) = false) :
    hasComment cs = false ∧ cs.head? ≠ some '#' := by
  cases cs with
  | nil => exact ⟨rfl, nofun⟩
  | cons d ds =>
    simp only [hasComment, Style.adjoins, hc, Bool.true_and, Bool.or_eq_false_iff,
      beq_eq_false_iff_ne] at hcomment
    exact ⟨hcomment.2, fun h => hcomment.1 (Option.some.inj h)⟩

theorem exists_of_hasComment (h : hasComment cs) :
    ∃ front b more, cs = front ++ b :: '#' :: more ∧ isBlank b := by
  induction cs with
  | nil => cases h
  | cons c cs ih =>
    cases cs with
    | nil => cases h
    | cons d ds =>
      rcases Bool.or_eq_true_iff.1 h with h | h
      · obtain ⟨hc, hd⟩ := Bool.and_eq_true_iff.1 h
        exact ⟨[], c, ds, by rw [beq_iff_eq.1 hd]; rfl, hc⟩
      · obtain ⟨front, b, more, hsplit, hb⟩ := ih h
        exact ⟨c :: front, b, more, congrArg (c :: ·) hsplit, hb⟩

theorem hasComment_tail {c : Char} (hcomment : hasComment (c :: cs) = false) :
    hasComment cs = false := by
  cases cs with
  | nil => rfl
  | cons d ds => exact (Bool.or_eq_false_iff.1 hcomment).2

section uncommented

variable {blanks : List Char} (hcomment : hasComment cs = false)
  (hhash : cs.head? = some '#' → blanks = [])
include hcomment hhash

theorem valueFrom_of_hasKey (hkey : hasKey cs) : valueFrom blanks cs = none := by
  induction cs generalizing blanks with
  | nil => cases hkey
  | cons c cs ih =>
    by_cases hc : isBlank c
    · have hcolon : (c == ':') = false := beq_eq_false_iff_ne.2 fun h => by simp [h, isBlank] at hc
      rw [hasKey, hcolon] at hkey
      obtain ⟨hrest, hnext⟩ := not_hash_of_hasComment hc hcomment
      rw [valueFrom, if_pos hc, ih hrest (fun h => absurd h hnext) hkey]
    · rw [valueFrom_solid (Bool.eq_false_iff.2 hc) fun h => hhash (congrArg some h)]
      by_cases hcolon : c == ':' && cs.head?.all isBlank
      · rw [if_pos hcolon]
      · rw [hasKey, Bool.eq_false_iff.2 hcolon] at hkey
        rw [if_neg hcolon, ih (hasComment_tail hcomment) (fun _ => rfl) hkey]
        rfl

theorem valueFrom_of_isLine (hkey : hasKey cs = false) (hne : cs ≠ [])
    (hlast : cs.getLast?.any isBlank = false) : valueFrom blanks cs = some (blanks ++ cs) := by
  induction cs generalizing blanks with
  | nil => exact absurd rfl hne
  | cons c cs ih =>
    obtain ⟨hcolon, hkey⟩ := Bool.or_eq_false_iff.1 hkey
    cases cs with
    | nil =>
      have hc : isBlank c = false := hlast
      rw [valueFrom_solid hc fun h => hhash (congrArg some h), hcolon]
      rfl
    | cons d ds =>
      rw [List.getLast?_cons_cons] at hlast
      by_cases hc : isBlank c
      · obtain ⟨hrest, hnext⟩ := not_hash_of_hasComment hc hcomment
        rw [valueFrom, if_pos hc, ih hrest (fun h => absurd h hnext) hkey nofun hlast,
          List.append_assoc, List.singleton_append]
      · rw [valueFrom_solid (Bool.eq_false_iff.2 hc) fun h => hhash (congrArg some h), hcolon,
          ih (hasComment_tail hcomment) (fun _ => rfl) hkey nofun hlast]
        rfl

end uncommented

theorem begins_cases {c : Char} (h : begins c cs) :
    (isGap c = false ∧ Layout.isIndicator c = false) ∨
      (c = '-' ∨ c = '?' ∨ c = ':') ∧ ∃ d ds, cs = d :: ds ∧ isGap d = false := by
  simp only [begins, Bool.or_eq_true, Bool.and_eq_true, Bool.not_eq_true', Bool.or_eq_false_iff,
    beq_iff_eq, Option.any_eq_true, List.head?_eq_some_iff, or_assoc] at h
  obtain h | ⟨hc, d, ⟨ds, rfl⟩, hd⟩ := h
  · exact .inl h
  · exact .inr ⟨hc, d, ds, rfl, hd⟩

theorem isBreak_of_opens (h : opens cs) {c : Char} (hc : c ∈ cs) : isBreak c = false := by
  cases cs with
  | nil => cases h
  | cons d ds =>
    have hall := List.all_eq_true.1 (Bool.and_eq_true_iff.1 h).2 c hc
    simpa using hall

theorem isGap_of_begins {c : Char} (h : begins c cs) : isGap c = false := by
  obtain ⟨hgap, -⟩ | ⟨rfl | rfl | rfl, -⟩ := begins_cases h
  · exact hgap
  all_goals rfl

theorem ne_hash_of_begins {c : Char} (h : begins c cs) : c ≠ '#' := by
  rintro rfl
  cases h

/-- Whether a scalar starts on a line is decided in front of its first blank. -/
theorem opens_append_blank {b : Char} (hb : isBlank b) (more : List Char) :
    opens (cs ++ b :: more) = (opens cs && (b :: more).all (!isBreak ·)) := by
  have hgap : isGap b = true := isGap_of_isBlank hb
  cases cs with
  | nil =>
    have hbegins : begins b more = false :=
      Bool.eq_false_iff.2 fun h => by simp [isGap_of_begins h] at hgap
    show (begins b more && _) = false
    rw [hbegins, Bool.false_and]
  | cons c cs =>
    have hbegins : begins c (cs ++ b :: more) = begins c cs := by
      cases cs with
      | nil => simp [begins, hgap]
      | cons d ds => rfl
    rw [List.cons_append, opens, opens, hbegins, ← List.cons_append, List.all_append,
      Bool.and_assoc]

/-- Where a scalar ends that starts on a line. -/
theorem read_line (hopens : opens cs) {indent : Nat} (hindent : 0 < indent) {x : Char}
    (hx : isGap x = false) (rest : List Char) {m : Mark} (hm : indent ≤ m.column) :
    ∃ t cur broken,
      read false indent ⟨cs ++ '\n' :: x :: rest, m⟩ = some ⟨t, cur, broken⟩ ∧
      Ending (x :: rest) m.line t (valueFrom [] cs) cur broken := by
  cases cs with
  | nil => cases hopens
  | cons c cs =>
    have hbegins : begins c cs := (Bool.and_eq_true_iff.1 hopens).1
    have hbreaks : ∀ d ∈ c :: cs, isBreak d = false := fun d => isBreak_of_opens hopens
    have hc : isBlank c = false := (Bool.or_eq_false_iff.1 (isGap_of_begins hbegins)).1
    have hfuel : cs.length < (c :: cs ++ '\n' :: x :: rest).length + 1 := by
      simp
      omega
    exact readFrom_line hindent hx rest hc hbreaks hfuel []
      (fun h => absurd h (ne_hash_of_begins hbegins)) hm

end Plain

/-! ## Where plain scalars start -/

namespace Layout

theorem unroll_cursor (column : Int) (outer : List Int) (l : Layout) :
    (unroll column outer l).cursor = l.cursor ∧ (unroll column outer l).keys = l.keys := by
  induction outer generalizing l with
  | nil => exact ⟨rfl, rfl⟩
  | cons i outer ih =>
    rw [unroll]
    split
    · exact ih _
    · exact ⟨rfl, rfl⟩

@[simp] theorem endBlocks_cursor (column : Int) (l : Layout) :
    (l.endBlocks column).cursor = l.cursor := by
  rw [endBlocks]
  split
  · rfl
  · exact (unroll_cursor ..).1

@[simp] theorem endBlocks_inFlow (column : Int) (l : Layout) :
    (l.endBlocks column).inFlow = l.inFlow := by
  rw [endBlocks]
  split
  · rfl
  · rw [inFlow, (unroll_cursor ..).2, inFlow]

/-- Where a plain scalar can start, one starts. -/
theorem step_of_begins {l l' : Layout} (hgap : skipGap (l.cursor.rest.length + 1) l = l')
    (hflow : l'.inFlow = false) {c : Char} {rest : List Char} (hrest : l'.cursor.rest = c :: rest)
    (hbegins : Plain.begins c rest) (hmarker : ∀ x, l'.cursor.atMarker x = false) :
    l.step = (l'.endBlocks l'.cursor.column).plainScalar := by
  have hpeek : l'.cursor.peek? = some c := by simp [Cursor.peek?, hrest]
  simp only [step, hgap, hpeek, hmarker, endBlocks_inFlow, hflow]
  generalize hblocks : l'.endBlocks l'.cursor.column = b
  have hb : b.cursor = l'.cursor ∧ b.inFlow = false := by simp [← hblocks, hflow]
  obtain ⟨hgap, hind⟩ | ⟨hc, d, ds, rfl, hd⟩ := Plain.begins_cases hbegins
  · have hne (x : Char) (hx : isIndicator x = true) : (c == x) = false :=
      beq_eq_false_iff_ne.2 fun h => by simp [h, hx] at hind
    have hstarts : b.startsPlain := by simp [startsPlain, hb, hrest, hgap, hind]
    simp only [hne '%' rfl, hne '[' rfl, hne '\x7b' rfl, hne ']' rfl, hne '\x7d' rfl, hne ',' rfl,
      hne '-' rfl, hne '?' rfl, hne ':' rfl, hne '*' rfl, hne '&' rfl, hne '!' rfl, hne '|' rfl,
      hne '>' rfl, hne '\x27' rfl, hne '"' rfl, hstarts, Bool.and_false, Bool.false_and,
      Bool.false_eq_true, if_false, if_true]
  · have hnext : l'.cursor.nextOrEnd isGap 1 = false := by simp [Cursor.nextOrEnd, hrest, hd]
    have hblank : isBlank d = false := (Bool.or_eq_false_iff.1 hd).1
    have hstarts : b.startsPlain := by
      obtain rfl | rfl | rfl := hc <;> simp [startsPlain, hb, hrest, hd, hblank]
    obtain rfl | rfl | rfl := hc <;> simp [hnext, hstarts]

end Layout

end Courtesy.Yaml
