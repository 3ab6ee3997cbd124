import Mathlib.Data.List.TakeDrop
import Courtesy.Service.Json

/-!
# Reading what was written

A value is written without blanks and read back as it was, up to the first character behind it
(`Proper.reads`, `read?_render`). Texts survive their escapes (`textRest_escaped`), and a whole
number is written without a leading zero, so that all of its digits are read (`number?_int`). A
value is proper if its numbers are whole and if it is not nested too deep for the reader.
-/

namespace Courtesy.Service.Json

open Courtesy.Text

/-! ## Texts -/

theorem hexValue?_digitChar {k : Nat} (h : k < 16) : hexValue? (Nat.digitChar k) = some k := by
  have hall : ∀ k < 16, hexValue? (Nat.digitChar k) = some k := by decide
  exact hall k h

variable {n fuel depth : Nat} {c : Char} {v : Json}

theorem unit?_hex (h : n < 0x10000) (rest : List Char) :
    unit? (hex 4 n ++ rest) = some (n, rest) := by
  have hdigits : hex 4 n = [Nat.digitChar (n / 16 / 16 / 16 % 16), Nat.digitChar (n / 16 / 16 % 16),
      Nat.digitChar (n / 16 % 16), Nat.digitChar (n % 16)] := rfl
  have hlt (m : Nat) : m % 16 < 16 := Nat.mod_lt m (by decide)
  rw [hdigits]
  simp only [List.cons_append, List.nil_append, unit?, hexValue?_digitChar (hlt _)]
  have hvalue : ((n / 16 / 16 / 16 % 16 * 16 + n / 16 / 16 % 16) * 16 + n / 16 % 16) * 16 + n % 16 =
      n := by
    omega
  exact congrArg (fun m => some (m, rest)) hvalue

theorem coded?_hex (h : n < 0xd800) (rest : List Char) :
    coded? (hex 4 n ++ rest) = some (Char.ofNat n, rest) := by
  have hhigh : isHighUnit n = false := by
    rw [isHighUnit, Bool.and_eq_false_iff, decide_eq_false_iff_not]
    exact .inl (by omega)
  have hlow : isLowUnit n = false := by
    rw [isLowUnit, Bool.and_eq_false_iff, decide_eq_false_iff_not]
    exact .inl (by omega)
  rw [coded?, unit?_hex (by omega)]
  simp [hhigh, hlow]

/-- The three ways to write a character: by a letter, by its code, and as it is. -/
theorem escaped_cases (c : Char) :
    (∃ x, escaped c = ['\\', x] ∧ x ≠ 'u' ∧ letter? x = some c) ∨
      (escaped c = '\\' :: 'u' :: hex 4 c.toNat ∧ c.toNat < 0xd800) ∨
      (escaped c = [c] ∧ c ≠ '"' ∧ c ≠ '\\' ∧ 0x20 ≤ c.toNat) := by
  have hcode {n : Nat} (h : (c.toNat == n) = true) : c = Char.ofNat n := by
    rw [← beq_iff_eq.1 h, Char.ofNat_toNat]
  unfold escaped
  dsimp only
  split
  · rename_i h
    simp only [Bool.or_eq_true, beq_iff_eq] at h
    rcases h with rfl | rfl
    · exact .inl ⟨'"', rfl, by decide, rfl⟩
    · exact .inl ⟨'\\', rfl, by decide, rfl⟩
  · rename_i hmarks
    split
    · rename_i h
      exact .inl ⟨'b', rfl, by decide, by rw [hcode h]; rfl⟩
    · split
      · rename_i h
        exact .inl ⟨'t', rfl, by decide, by rw [hcode h]; rfl⟩
      · split
        · rename_i h
          exact .inl ⟨'n', rfl, by decide, by rw [hcode h]; rfl⟩
        · split
          · rename_i h
            exact .inl ⟨'f', rfl, by decide, by rw [hcode h]; rfl⟩
          · split
            · rename_i h
              exact .inl ⟨'r', rfl, by decide, by rw [hcode h]; rfl⟩
            · split
              · rename_i h
                refine .inr (.inl ⟨rfl, ?_⟩)
                simp only [Bool.or_eq_true, decide_eq_true_eq, beq_iff_eq] at h
                rcases h with ((((h | rfl) | rfl) | rfl) | h) | h
                · omega
                · decide
                · decide
                · decide
                · omega
                · omega
              · rename_i h
                simp only [Bool.or_eq_true, decide_eq_true_eq, beq_iff_eq, not_or] at h hmarks
                exact .inr (.inr ⟨rfl, hmarks.1, hmarks.2, by omega⟩)

/-- One character of a text is read in one step, however it was written. -/
theorem textRest_escaped (fuel : Nat) (acc : List Char) (c : Char) (rest : List Char) :
    textRest (fuel + 1) acc (escaped c ++ rest) = textRest fuel (c :: acc) rest := by
  rcases escaped_cases c with ⟨x, hx, hu, hletter⟩ | ⟨hx, hlt⟩ | ⟨hx, hquote, hback, hge⟩
  · rw [hx, List.cons_append, List.singleton_append, textRest.eq_def]
    dsimp only
    rw [if_neg (by decide), if_neg (by decide), if_neg (by decide)]
    split
    · rename_i heq
      exact absurd (List.cons.inj heq).1 hu
    · rename_i heq
      obtain ⟨rfl, rfl⟩ := List.cons.inj heq
      rw [hletter]
    · rename_i heq
      cases heq
  · rw [hx, List.cons_append, List.cons_append, textRest.eq_def]
    dsimp only
    rw [if_neg (by decide), if_neg (by decide), if_neg (by decide)]
    split
    · rename_i heq
      obtain ⟨-, rfl⟩ := List.cons.inj heq
      rw [coded?_hex hlt, Char.ofNat_toNat]
    · rename_i hno heq
      exact (hno (List.cons.inj heq).1.symm).elim
    · rename_i heq
      cases heq
  · rw [hx, List.singleton_append, textRest.eq_def]
    dsimp only
    rw [if_neg (by simpa using hquote), if_neg (by omega), if_pos (by simpa using hback)]

theorem textRest_text (cs : List Char) (h : cs.length < fuel) (acc rest : List Char) :
    textRest fuel acc (cs.flatMap escaped ++ '"' :: rest) =
      some (String.ofList (acc.reverse ++ cs), rest) := by
  induction cs generalizing fuel acc with
  | nil =>
    obtain ⟨fuel, rfl⟩ := Nat.exists_eq_add_one_of_ne_zero (Nat.ne_of_gt h)
    simp [textRest]
  | cons c cs ih =>
    obtain ⟨fuel, rfl⟩ := Nat.exists_eq_add_one_of_ne_zero (Nat.ne_of_gt (Nat.zero_lt_of_lt h))
    rw [List.flatMap_cons, List.append_assoc, textRest_escaped,
      ih (Nat.lt_of_succ_lt_succ h), List.reverse_cons, List.append_assoc, List.singleton_append]

theorem length_escaped (c : Char) : 0 < (escaped c).length := by
  rcases escaped_cases c with ⟨x, hx, -⟩ | ⟨hx, -⟩ | ⟨hx, -⟩ <;> simp [hx]

theorem length_le_flatMap_escaped (cs : List Char) : cs.length ≤ (cs.flatMap escaped).length := by
  induction cs with
  | nil => exact Nat.le_refl 0
  | cons c cs ih =>
    have hc := length_escaped c
    rw [List.flatMap_cons, List.length_append, List.length_cons]
    omega

theorem toList_quoted (s : String) :
    (quoted s).toList = '"' :: (s.toList.flatMap escaped ++ ['"']) := by
  rw [quoted, String.toList_ofList, List.cons_append]

theorem textRest_quoted (s : String) (h : (quoted s).toList.length ≤ fuel + 1) (rest : List Char) :
    textRest fuel [] (s.toList.flatMap escaped ++ '"' :: rest) = some (s, rest) := by
  have hle := length_le_flatMap_escaped s.toList
  rw [toList_quoted, List.length_cons, List.length_append, List.length_singleton] at h
  rw [textRest_text s.toList (by omega), List.reverse_nil, List.nil_append, String.ofList_toList]

/-! ## Whole numbers -/

/-- What may stand behind a value: the marks of lists and objects, and the end of the line. -/
def Stops (rest : List Char) : Prop :=
  rest = [] ∨ ∃ c tail, rest = c :: tail ∧ c ∈ [',', ']', '}', '\n']

theorem toDigits_head (h : n ≠ 0) : (Nat.toDigits 10 n).head? ≠ some '0' := by
  induction n using Nat.strongRecOn with
  | ind n ih =>
    by_cases hlt : n < 10
    · rw [Nat.toDigits_of_lt_base hlt, List.head?_cons]
      intro hzero
      exact h (Nat.digitChar_eq_zero.1 (Option.some.inj hzero))
    · have hdiv : n / 10 ≠ 0 := by omega
      have hhead := ih (n / 10) (by omega) hdiv
      rw [Nat.toDigits_of_base_le (by decide) (by omega)]
      cases hds : Nat.toDigits 10 (n / 10) with
      | nil => exact absurd hds Nat.toDigits_ne_nil
      | cons d ds =>
        rw [hds] at hhead
        exact hhead

/-- No digit, point or mark of an exponent stands behind a value. -/
theorem Stops.head {rest : List Char} (h : Stops rest) {tail : List Char}
    (hrest : rest = c :: tail) : c.isDigit = false ∧ c ≠ '.' ∧ (c == 'e' || c == 'E') = false := by
  have hall : ∀ c ∈ [',', ']', '}', '\n'],
      c.isDigit = false ∧ c ≠ '.' ∧ (c == 'e' || c == 'E') = false := by
    intro c hc
    simp only [List.mem_cons, List.not_mem_nil, or_false] at hc
    rcases hc with rfl | rfl | rfl | rfl <;> decide
  rcases h with rfl | ⟨c', tail', rfl, hc⟩
  · cases hrest
  · obtain ⟨rfl, -⟩ := List.cons.inj hrest
    exact hall c' hc

theorem span_digits {ds rest : List Char} (hds : ∀ c ∈ ds, c.isDigit = true) (hrest : Stops rest) :
    (ds ++ rest).span Char.isDigit = (ds, rest) := by
  rw [List.span_eq_takeWhile_dropWhile, List.takeWhile_append_of_pos hds,
    List.dropWhile_append_of_pos hds]
  cases rest with
  | nil => simp
  | cons c tail => simp [(hrest.head rfl).1]

theorem toDigits_cons (n : Nat) : ∃ d ds, Nat.toDigits 10 n = d :: ds ∧ d.isDigit = true := by
  cases hds : Nat.toDigits 10 n with
  | nil => exact absurd hds Nat.toDigits_ne_nil
  | cons d ds =>
    refine ⟨d, ds, rfl, Nat.isDigit_of_mem_toDigits (b := 10) (n := n) (by decide) (by decide) ?_⟩
    rw [hds]
    exact List.mem_cons_self

/-- All digits of a number are read, since it has no leading zero. -/
theorem whole?_digits (n : Nat) {rest : List Char} (hrest : Stops rest) :
    whole? (Nat.toDigits 10 n ++ rest) = some (Nat.toDigits 10 n, rest) := by
  by_cases hn : n = 0
  · rw [hn, Nat.toDigits_zero]
    rfl
  · have hdigits : ∀ c ∈ Nat.toDigits 10 n, c.isDigit = true := fun c hc =>
      Nat.isDigit_of_mem_toDigits (by decide) (by decide) hc
    have hspan := span_digits hdigits hrest
    have hhead := toDigits_head hn
    obtain ⟨d, ds, hds, -⟩ := toDigits_cons n
    rw [hds] at hspan hhead ⊢
    have hd : d ≠ '0' := fun h => hhead (by rw [h]; rfl)
    unfold whole?
    split
    · rename_i heq
      exact absurd (List.cons.inj heq).1 hd
    · rw [digits?, hspan]

theorem fraction?_stops {rest : List Char} (hrest : Stops rest) :
    fraction? rest = some ([], rest) := by
  unfold fraction?
  split
  · exact absurd rfl (hrest.head rfl).2.1
  · rfl

theorem exponent?_stops {rest : List Char} (hrest : Stops rest) :
    exponent? rest = some ([], rest) := by
  cases rest with
  | nil => rfl
  | cons c tail =>
    rw [exponent?, (hrest.head rfl).2.2]
    rfl

section

variable {ds rest : List Char} (hwhole : whole? (ds ++ rest) = some (ds, rest)) (hrest : Stops rest)

include hwhole hrest

theorem number?_unsigned (hminus : ∀ cs, ds ++ rest ≠ '-' :: cs) :
    number? (ds ++ rest) = some (.number (String.ofList ds), rest) := by
  unfold number?
  split
  rename_i heq
  split at heq
  · rename_i hcs
    exact absurd hcs (hminus _)
  · cases heq
    simp [hwhole, fraction?_stops hrest, exponent?_stops hrest]

theorem number?_negative :
    number? ('-' :: (ds ++ rest)) = some (.number (String.ofList ('-' :: ds)), rest) := by
  unfold number?
  simp only [hwhole, fraction?_stops hrest, exponent?_stops hrest, Option.bind_eq_bind,
    Option.bind_some, List.append_nil]
  rfl

end

theorem number?_int (n : Int) {rest : List Char} (hrest : Stops rest) :
    number? ((toString n).toList ++ rest) = some (.int n, rest) := by
  cases n with
  | ofNat m =>
    have hminus : ∀ cs, Nat.toDigits 10 m ++ rest ≠ '-' :: cs := by
      obtain ⟨d, ds, hds, hd⟩ := toDigits_cons m
      intro cs hcs
      rw [hds] at hcs
      obtain ⟨rfl, -⟩ := List.cons.inj hcs
      cases hd
    have htext : toString (Int.ofNat m) = String.ofList (Nat.toDigits 10 m) := rfl
    rw [int, htext, String.toList_ofList]
    exact number?_unsigned (whole?_digits m hrest) hrest hminus
  | negSucc m =>
    have htext : toString (Int.negSucc m) = String.ofList ('-' :: Nat.toDigits 10 (m + 1)) := by
      rw [String.ofList_cons]
      rfl
    rw [int, htext, String.toList_ofList, List.cons_append]
    exact number?_negative (whole?_digits (m + 1) hrest) hrest

/-! ## Values -/

/-- Values whose numbers are whole and whose lists and objects are inside each other at most `depth`
times. -/
inductive Proper : Nat → Json → Prop
  | null {depth : Nat} : Proper depth .null
  | flag {depth : Nat} (b : Bool) : Proper depth (.flag b)
  | int {depth : Nat} (n : Int) : Proper depth (.int n)
  | text {depth : Nat} (s : String) : Proper depth (.text s)
  | list {depth : Nat} {items : List Json} (h : ∀ item ∈ items, Proper depth item) :
      Proper (depth + 1) (.list items)
  | object {depth : Nat} {fields : List (String × Json)}
      (h : ∀ field ∈ fields, Proper depth field.2) : Proper (depth + 1) (.object fields)

/-- A value with room for its text is read back, and the rest is left. -/
def ReadsBack (depth : Nat) (v : Json) : Prop :=
  ∀ fuel rest, v.render.toList.length < fuel → Stops rest →
    value fuel depth (v.render.toList ++ rest) = some (v, rest)

theorem readsBack_of_succ
    (h : ∀ fuel rest, v.render.toList.length ≤ fuel → Stops rest →
      value (fuel + 1) depth (v.render.toList ++ rest) = some (v, rest)) :
    ReadsBack depth v := by
  intro fuel rest hfuel hrest
  cases fuel with
  | zero => cases hfuel
  | succ fuel => exact h fuel rest (Nat.le_of_lt_succ hfuel) hrest

/-- The characters that a value can start with. -/
def startsValue (c : Char) : Bool :=
  c == 'n' || c == 't' || c == 'f' || c == '"' || c == '[' || c == '{' || c == '-' || c.isDigit

theorem skipSpace_start (h : startsValue c = true) (cs : List Char) :
    skipSpace (c :: cs) = c :: cs := by
  have hspace : isSpace c = false := by
    rw [Bool.eq_false_iff]
    intro hs
    simp only [isSpace, Bool.or_eq_true, beq_iff_eq] at hs
    rcases hs with ((rfl | rfl) | rfl) | rfl <;> exact absurd h (by decide)
  rw [skipSpace, List.dropWhile_cons, hspace]
  rfl

theorem value_number (h : (c == '-' || c.isDigit) = true) (fuel depth : Nat) (cs : List Char) :
    value (fuel + 1) depth (c :: cs) = number? (c :: cs) := by
  have hstart : startsValue c = true := by
    rw [startsValue, Bool.or_assoc, h, Bool.or_true]
  have hmarks : (c == '"') = false ∧ (c == '[' || c == '\x7b') = false := by
    refine ⟨?_, ?_⟩
    · rw [beq_eq_false_iff_ne]
      rintro rfl
      exact absurd h (by decide)
    · rw [Bool.eq_false_iff]
      intro hm
      simp only [Bool.or_eq_true, beq_iff_eq] at hm
      rcases hm with rfl | rfl <;> exact absurd h (by decide)
  rw [value.eq_def]
  dsimp only
  rw [skipSpace_start hstart]
  dsimp only
  rw [hmarks.1, hmarks.2, h]
  rfl

theorem value_text (s : String) (h : (quoted s).toList.length ≤ fuel + 1) (depth : Nat)
    (rest : List Char) :
    value (fuel + 1) depth ((quoted s).toList ++ rest) = some (.text s, rest) := by
  have hread := textRest_quoted s h rest
  rw [toList_quoted, List.cons_append, List.append_assoc, List.singleton_append, value.eq_def]
  dsimp only
  rw [skipSpace_start (by decide)]
  dsimp only
  rw [if_pos (by decide), hread]
  rfl

theorem toList_commas (t : String) (ts : List String) :
    (",".intercalate (t :: ts)).toList = t.toList ++ ts.flatMap fun u => ',' :: u.toList := by
  induction ts generalizing t with
  | nil => simp
  | cons u ts ih =>
    rw [String.intercalate_cons_cons, String.toList_append, String.toList_append, ih,
      List.flatMap_cons, List.append_assoc]
    rfl

theorem renderItems_eq (items : List Json) : renderItems items = items.map render := by
  induction items with
  | nil => rw [renderItems, List.map_nil]
  | cons item rest ih => rw [renderItems, ih, List.map_cons]

/-- The text of a field. -/
def fieldText (field : String × Json) : String := quoted field.1 ++ ":" ++ field.2.render

theorem renderFields_eq (fields : List (String × Json)) :
    renderFields fields = fields.map fieldText := by
  induction fields with
  | nil => rw [renderFields, List.map_nil]
  | cons field rest ih => rw [renderFields, ih, List.map_cons, fieldText]

theorem toList_list (item : Json) (items : List Json) :
    (Json.list (item :: items)).render.toList =
      '[' :: (item.render.toList ++
        ((items.flatMap fun i => ',' :: i.render.toList) ++ [']'])) := by
  rw [render, renderItems_eq, List.map_cons, String.toList_append, String.toList_append,
    toList_commas, List.flatMap_map, List.append_assoc, List.append_assoc]
  rfl

theorem toList_object (field : String × Json) (fields : List (String × Json)) :
    (Json.object (field :: fields)).render.toList =
      '\x7b' :: ((fieldText field).toList ++
        ((fields.flatMap fun f => ',' :: (fieldText f).toList) ++ ['\x7d'])) := by
  have hopen : "\x7b".toList = ['\x7b'] := rfl
  have hclose : "\x7d".toList = ['\x7d'] := rfl
  rw [render, renderFields_eq, List.map_cons, String.toList_append, String.toList_append,
    toList_commas, List.flatMap_map, hopen, hclose, List.append_assoc, List.append_assoc,
    List.singleton_append]

theorem stops_comma (cs : List Char) : Stops (',' :: cs) := .inr ⟨',', cs, rfl, by decide⟩

theorem items_read {depth : Nat} {item : Json} {more : List Json} (hitem : ReadsBack depth item)
    (hmore : ∀ i ∈ more, ReadsBack depth i) (fuel : Nat)
    (hfuel : (item.render.toList ++ more.flatMap fun i => ',' :: i.render.toList).length + 1 < fuel)
    (acc : List Json) (rest : List Char) :
    items fuel depth acc
        (item.render.toList ++ ((more.flatMap fun i => ',' :: i.render.toList) ++ ']' :: rest)) =
      some (.list (acc.reverse ++ item :: more), rest) := by
  induction more generalizing item fuel acc with
  | nil =>
    obtain ⟨fuel, rfl⟩ := Nat.exists_eq_add_one.2 (Nat.zero_lt_of_lt hfuel)
    have hlen : item.render.toList.length < fuel := by
      simp only [List.flatMap_nil, List.append_nil] at hfuel
      omega
    rw [List.flatMap_nil, List.nil_append, items.eq_def]
    dsimp only
    rw [hitem fuel _ hlen (.inr ⟨']', rest, rfl, by decide⟩)]
    simp [skipSpace, isSpace]
  | cons next more ih =>
    obtain ⟨fuel, rfl⟩ := Nat.exists_eq_add_one.2 (Nat.zero_lt_of_lt hfuel)
    simp only [List.flatMap_cons, List.length_append, List.length_cons] at hfuel
    have hnext := ih (hmore next List.mem_cons_self)
      (fun i hi => hmore i (List.mem_cons_of_mem next hi)) fuel
      (by simp only [List.length_append]; omega) (item :: acc)
    rw [List.flatMap_cons, List.cons_append, List.cons_append, List.append_assoc, items.eq_def]
    dsimp only
    rw [hitem fuel _ (by omega) (stops_comma _)]
    simp [skipSpace, isSpace, hnext]

theorem toList_fieldText (key : String) (v : Json) :
    (fieldText (key, v)).toList =
      '"' :: (key.toList.flatMap escaped ++ '"' :: ':' :: v.render.toList) := by
  rw [fieldText, String.toList_append, String.toList_append, toList_quoted]
  simp

/-- One field, and the mark behind it. -/
theorem fields_step {field : String × Json} (hfield : ReadsBack depth field.2)
    (hfuel : (fieldText field).toList.length < fuel) (acc : List (String × Json)) {mark : Char}
    (hmark : mark = ',' ∨ mark = '\x7d') (rest : List Char) :
    fields (fuel + 1) depth acc ((fieldText field).toList ++ mark :: rest) =
      if mark = ',' then fields fuel depth (field :: acc) rest
      else some (.object (field :: acc).reverse, rest) := by
  obtain ⟨key, v⟩ := field
  rw [toList_fieldText, List.length_cons, List.length_append, List.length_cons,
    List.length_cons] at hfuel
  have hkey : (quoted key).toList.length ≤ fuel + 1 := by
    rw [toList_quoted, List.length_cons, List.length_append, List.length_singleton]
    omega
  have hvalue := hfield fuel (mark :: rest) (by dsimp only; omega)
    (by rcases hmark with rfl | rfl <;> exact .inr ⟨_, rest, rfl, by decide⟩)
  have hcolon (cs : List Char) : skipSpace (':' :: cs) = ':' :: cs := rfl
  rw [toList_fieldText, List.cons_append, List.append_assoc, List.cons_append, List.cons_append,
    fields.eq_def]
  dsimp only
  rw [skipSpace_start (by decide)]
  simp only [textRest_quoted key hkey, hcolon, hvalue]
  rcases hmark with rfl | rfl <;> rfl

theorem fields_read {field : String × Json} {more : List (String × Json)}
    (hfield : ReadsBack depth field.2) (hmore : ∀ f ∈ more, ReadsBack depth f.2) (fuel : Nat)
    (hfuel : ((fieldText field).toList ++
      more.flatMap fun f => ',' :: (fieldText f).toList).length + 1 < fuel)
    (acc : List (String × Json)) (rest : List Char) :
    fields fuel depth acc ((fieldText field).toList ++
        ((more.flatMap fun f => ',' :: (fieldText f).toList) ++ '\x7d' :: rest)) =
      some (.object (acc.reverse ++ field :: more), rest) := by
  induction more generalizing field fuel acc with
  | nil =>
    obtain ⟨fuel, rfl⟩ := Nat.exists_eq_add_one.2 (Nat.zero_lt_of_lt hfuel)
    simp only [List.flatMap_nil, List.append_nil] at hfuel
    rw [List.flatMap_nil, List.nil_append, fields_step hfield (by omega) acc (.inr rfl),
      if_neg (by decide), List.reverse_cons]
  | cons next more ih =>
    obtain ⟨fuel, rfl⟩ := Nat.exists_eq_add_one.2 (Nat.zero_lt_of_lt hfuel)
    simp only [List.flatMap_cons, List.length_append, List.length_cons] at hfuel
    have hnext := ih (hmore next List.mem_cons_self)
      (fun f hf => hmore f (List.mem_cons_of_mem next hf)) fuel
      (by simp only [List.length_append]; omega) (field :: acc)
    rw [List.flatMap_cons, List.cons_append, List.cons_append, List.append_assoc,
      fields_step hfield (by omega) acc (.inl rfl), if_pos rfl, hnext, List.reverse_cons,
      List.append_assoc, List.singleton_append]

theorem toList_int (n : Int) :
    ∃ c cs, (toString n).toList = c :: cs ∧ (c == '-' || c.isDigit) = true := by
  cases n with
  | ofNat m =>
    obtain ⟨d, ds, hds, hd⟩ := toDigits_cons m
    refine ⟨d, ds, ?_, Bool.or_eq_true_iff.2 (.inr hd)⟩
    rw [← hds]
    exact Nat.toList_repr
  | negSucc m =>
    refine ⟨'-', Nat.toDigits 10 (m + 1), ?_, rfl⟩
    have htext : toString (Int.negSucc m) = "-" ++ Nat.repr (m + 1) := rfl
    rw [htext, String.toList_append, Nat.toList_repr]
    rfl

/-- A proper value starts with a character of its own, which is no space and no closing mark. -/
theorem Proper.start (h : Proper depth v) :
    ∃ c cs, v.render.toList = c :: cs ∧ startsValue c = true := by
  cases h with
  | null => exact ⟨'n', ['u', 'l', 'l'], by rw [render]; rfl, rfl⟩
  | flag b =>
    cases b with
    | false => exact ⟨'f', ['a', 'l', 's', 'e'], by rw [render]; rfl, rfl⟩
    | true => exact ⟨'t', ['r', 'u', 'e'], by rw [render]; rfl, rfl⟩
  | int n =>
    obtain ⟨c, cs, hcs, hc⟩ := toList_int n
    refine ⟨c, cs, by rw [Json.int, render, hcs], ?_⟩
    rw [startsValue, Bool.or_assoc, hc, Bool.or_true]
  | text s => exact ⟨'"', _, by rw [render, toList_quoted], rfl⟩
  | list _ => exact ⟨'[', _, by rw [render, String.toList_append, String.toList_append]; rfl, rfl⟩
  | object _ =>
    exact ⟨'\x7b', _, by rw [render, String.toList_append, String.toList_append]; rfl, rfl⟩

theorem value_items (hc : startsValue c = true) (fuel depth : Nat) (cs : List Char) :
    value (fuel + 1) (depth + 1) ('[' :: c :: cs) = items fuel depth [] (c :: cs) := by
  have hclose : c ≠ ']' := by
    rintro rfl
    exact absurd hc (by decide)
  rw [value.eq_def]
  dsimp only
  rw [skipSpace_start (by decide)]
  dsimp only
  rw [skipSpace_start hc, if_neg (by decide), if_pos (by decide)]
  split
  · rename_i heq
    exact absurd (List.cons.inj heq).1 hclose
  · rfl
  · rename_i h _
    exact absurd h (by decide)
  · rename_i h _
    exact absurd h (by decide)

theorem value_fields (fuel depth : Nat) (cs : List Char) :
    value (fuel + 1) (depth + 1) ('\x7b' :: '"' :: cs) = fields fuel depth [] ('"' :: cs) := by
  rw [value.eq_def]
  dsimp only
  rw [skipSpace_start (by decide)]
  dsimp only
  rw [skipSpace_start (by decide)]
  rfl

theorem value_list {items : List Json} (hproper : ∀ i ∈ items, Proper depth i)
    (hread : ∀ i ∈ items, ReadsBack depth i) : ReadsBack (depth + 1) (.list items) := by
  refine readsBack_of_succ fun fuel rest hfuel _ => ?_
  cases items with
  | nil =>
    rw [render, renderItems]
    rfl
  | cons item items =>
    rw [toList_list] at hfuel ⊢
    obtain ⟨c, cs, hcs, hc⟩ := (hproper item List.mem_cons_self).start
    have hitems := items_read (hread item List.mem_cons_self)
      (fun i hi => hread i (List.mem_cons_of_mem item hi)) fuel (by
        simp only [List.length_cons, List.length_append, List.length_nil] at hfuel ⊢
        omega) [] rest
    rw [List.cons_append, List.append_assoc, List.append_assoc, List.singleton_append]
    rw [hcs, List.cons_append] at hitems ⊢
    rw [value_items hc, hitems]
    rfl

theorem value_object {fields : List (String × Json)} (hread : ∀ f ∈ fields, ReadsBack depth f.2) :
    ReadsBack (depth + 1) (.object fields) := by
  refine readsBack_of_succ fun fuel rest hfuel _ => ?_
  cases fields with
  | nil =>
    rw [render, renderFields]
    rfl
  | cons field fields =>
    rw [toList_object] at hfuel ⊢
    have hfields := fields_read (hread field List.mem_cons_self)
      (fun f hf => hread f (List.mem_cons_of_mem field hf)) fuel (by
        simp only [List.length_cons, List.length_append, List.length_nil] at hfuel ⊢
        omega) [] rest
    obtain ⟨key, v⟩ := field
    rw [List.cons_append, List.append_assoc, List.append_assoc, List.singleton_append]
    rw [toList_fieldText, List.cons_append] at hfields ⊢
    rw [value_fields, hfields]
    rfl

/-- Every proper value is read back. -/
theorem Proper.reads (h : Proper depth v) : ReadsBack depth v := by
  induction h with
  | list hproper ih => exact value_list hproper ih
  | object _ ih => exact value_object ih
  | null =>
    refine readsBack_of_succ fun fuel rest hfuel _ => ?_
    rw [render]
    rfl
  | flag b =>
    refine readsBack_of_succ fun fuel rest hfuel _ => ?_
    rw [render]
    cases b <;> rfl
  | int n =>
    refine readsBack_of_succ fun fuel rest hfuel hrest => ?_
    have hnumber := number?_int n hrest
    obtain ⟨c, cs, hcs, hc⟩ := toList_int n
    rw [Json.int, render]
    rw [hcs, List.cons_append] at hnumber ⊢
    rw [value_number hc, hnumber]
    rfl
  | text s =>
    refine readsBack_of_succ fun fuel rest hfuel _ => ?_
    rw [render] at hfuel ⊢
    exact value_text s (Nat.le_succ_of_le hfuel) _ rest

/-- A text that starts with a proper value is read as this value. -/
theorem read?_render (h : Proper maxDepth v) {rest : List Char} (hrest : Stops rest) :
    read? (v.render.toList ++ rest) = some (v, rest) := by
  refine h.reads _ rest ?_ hrest
  rw [List.length_append]
  omega

end Courtesy.Service.Json
