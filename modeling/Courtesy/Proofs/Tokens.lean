import Courtesy.Translation

/-!
# Tokens of a line

The kind of a token is decided by its text, and for the fixed words the text by the kind
(`text_of_classify`). A line of a program is trimmed, so the tokens that open blocks are the
tokens that its statement consists of (`Token.texts_ofLine`).
-/

namespace Courtesy

theorem except_bind_ok {ε α β : Type} {x : Except ε α} {f : α → Except ε β} {b : β} :
    (x >>= f) = .ok b ↔ ∃ a, x = .ok a ∧ f a = .ok b := by
  constructor
  · intro h
    cases x with
    | error e => cases h
    | ok a => exact ⟨a, rfl, h⟩
  · rintro ⟨a, rfl, h⟩
    exact h

theorem except_toOption_eq_some {ε α : Type} {x : Except ε α} {a : α} :
    x.toOption = some a ↔ x = .ok a := by
  cases x with
  | error e => simp [Except.toOption]
  | ok b => simp [Except.toOption]

/-- What is computed one by one succeeds where each of the computations does. -/
theorem mapM_ok {ε α β : Type} {f : α → Except ε β} {xs : List α} {ys : List β}
    (h : xs.mapM f = .ok ys) :
    ys.length = xs.length ∧
      ∀ (k : Nat) (x : α), xs[k]? = some x → ∃ y, ys[k]? = some y ∧ f x = .ok y := by
  induction xs generalizing ys with
  | nil =>
    cases h
    refine ⟨rfl, fun k x hx => ?_⟩
    cases hx
  | cons a xs ih =>
    rw [List.mapM_cons] at h
    obtain ⟨b, hb, h⟩ := except_bind_ok.1 h
    obtain ⟨bs, hbs, h⟩ := except_bind_ok.1 h
    cases h
    obtain ⟨hlen, hall⟩ := ih hbs
    refine ⟨congrArg (· + 1) hlen, fun k x hx => ?_⟩
    cases k with
    | zero =>
      cases hx
      exact ⟨b, rfl, hb⟩
    | succ k => exact hall k x hx

theorem mapM_error {ε α β : Type} {f : α → Except ε β} {xs : List α} {e : ε}
    (h : xs.mapM f = .error e) : ∃ x ∈ xs, f x = .error e := by
  induction xs with
  | nil => cases h
  | cons a xs ih =>
    rw [List.mapM_cons] at h
    cases ha : f a with
    | error e' =>
      rw [ha] at h
      cases h
      exact ⟨a, List.mem_cons_self, ha⟩
    | ok b =>
      rw [ha] at h
      cases hxs : xs.mapM f with
      | error e' =>
        rw [hxs] at h
        cases h
        obtain ⟨x, hx, hf⟩ := ih hxs
        exact ⟨x, List.mem_cons_of_mem a hx, hf⟩
      | ok bs =>
        rw [hxs] at h
        cases h

theorem mem_of_lookup {κ α : Type} [BEq κ] [LawfulBEq κ] {table : List (κ × α)} {key : κ}
    {entry : α} (h : table.lookup key = some entry) : (key, entry) ∈ table := by
  obtain ⟨l, r, rfl, -⟩ := List.lookup_eq_some_iff.1 h
  exact List.mem_append_right l List.mem_cons_self

/-! ## Trimmed lines -/

namespace Text

theorem dropWhile_dropWhile (p : Char → Bool) (cs : List Char) :
    (cs.dropWhile p).dropWhile p = cs.dropWhile p := by
  induction cs with
  | nil => rfl
  | cons c cs ih =>
    by_cases h : p c
    · rw [List.dropWhile_cons_of_pos h, ih]
    · rw [List.dropWhile_cons_of_neg h, List.dropWhile_cons_of_neg h]

/-- Dropping from the right keeps the first character. -/
theorem dropWhile_reverse_dropWhile (p : Char → Bool) {cs : List Char} (h : cs.dropWhile p = cs) :
    ((cs.reverse.dropWhile p).reverse).dropWhile p = (cs.reverse.dropWhile p).reverse := by
  cases hb : (cs.reverse.dropWhile p).reverse with
  | nil => rfl
  | cons c rest =>
    have hcs : cs = (c :: rest) ++ (cs.reverse.takeWhile p).reverse := by
      rw [← hb, ← List.reverse_append, List.takeWhile_append_dropWhile, List.reverse_reverse]
    rw [hcs, List.cons_append] at h
    have hc : ¬ p c = true := by
      intro hc
      rw [List.dropWhile_cons_of_pos hc] at h
      have := List.IsSuffix.length_le
        (List.dropWhile_suffix p (l := rest ++ (cs.reverse.takeWhile p).reverse))
      rw [h, List.length_cons] at this
      omega
    rw [List.dropWhile_cons_of_neg hc]

theorem trimBy_trimBy (p : Char → Bool) (cs : List Char) :
    trimBy p (trimBy p cs) = trimBy p cs := by
  unfold trimBy
  rw [dropWhile_reverse_dropWhile p (dropWhile_dropWhile p cs), List.reverse_reverse,
    dropWhile_dropWhile]

@[simp] theorem trim_trim (s : String) : trim (trim s) = trim s := by
  simp only [trim, String.toList_ofList, trimBy_trimBy]

theorem trim_of_mem_solidLines {input : List String} {line : String}
    (h : line ∈ solidLines input) : trim line = line := by
  obtain ⟨s, -, rfl⟩ := List.mem_map.1 (List.mem_filter.1 h).1
  exact trim_trim s

end Text

/-! ## Kinds and texts -/

/-- What the kind of a text tells about the text. -/
inductive Classified (text : String) : Kind → Prop
  | keyword {kind : Kind} (h : (text, kind) ∈ Vocabulary.keywords) : Classified text kind
  | typeName (h : ValueType.isName text = true) : Classified text .typeName
  | relational (h : Vocabulary.isRelational text = true) : Classified text .relational
  | number (h : Literal.isNumber text = true) : Classified text .number
  | string (h : Literal.isString text = true) : Classified text .string
  | identifier (h : Literal.isIdentifier text = true) : Classified text .identifier
  | invalid : Classified text .invalid

theorem classify_classified (text : String) : Classified text (classify text) := by
  unfold classify
  split
  · rename_i kind h
    exact .keyword (mem_of_lookup h)
  · split
    · exact .typeName ‹_›
    · split
      · exact .relational ‹_›
      · split
        · exact .number ‹_›
        · split
          · exact .string ‹_›
          · split
            · exact .identifier ‹_›
            · exact .invalid

variable {text : String}

/-- A kind of fixed words has only their texts. -/
theorem mem_keywords_of_classify {kind : Kind} (h : classify text = kind)
    (hk : kind ∉ [Kind.typeName, .relational, .number, .string, .identifier, .invalid]) :
    (text, kind) ∈ Vocabulary.keywords := by
  have hc := classify_classified text
  rw [h] at hc
  cases hc with
  | keyword hm => exact hm
  | _ => exact absurd (by decide) hk

/-- The text of a kind that has one only. -/
theorem text_of_classify {word : String} {kind : Kind} (h : classify text = kind)
    (hk : kind ∉ [Kind.typeName, .relational, .number, .string, .identifier, .invalid])
    (hw : ∀ p ∈ Vocabulary.keywords, p.2 = kind → p.1 = word) : text = word :=
  hw _ (mem_keywords_of_classify h hk) rfl

theorem text_of_openBrace (h : classify text = .openBrace) : text = "\x7b" :=
  text_of_classify h (by decide) (by decide)

theorem text_of_define (h : classify text = .define) : text = "please define function" :=
  text_of_classify h (by decide) (by decide)

theorem text_of_create (h : classify text = .create) : text = "please create" :=
  text_of_classify h (by decide) (by decide)

theorem text_of_loop (h : classify text = .loop) : text = "thank you for looping" :=
  text_of_classify h (by decide) (by decide)

theorem text_of_check (h : classify text = .check) : text = "thank you for checking if" :=
  text_of_classify h (by decide) (by decide)

theorem text_of_giveBack (h : classify text = .giveBack) : text = "thank you for returning" :=
  text_of_classify h (by decide) (by decide)

theorem text_of_openParen {text : String} (h : classify text = .openParen) : text = "(" :=
  text_of_classify h (by decide) (by decide)

theorem text_of_closeParen {text : String} (h : classify text = .closeParen) : text = ")" :=
  text_of_classify h (by decide) (by decide)

theorem text_of_fromWord (h : classify text = .fromWord) : text = "from" :=
  text_of_classify h (by decide) (by decide)

/-- A type name declares a type. -/
theorem ofName?_of_typeName (h : classify text = .typeName) :
    ∃ type, ValueType.ofName? text = some type := by
  have hc := classify_classified text
  rw [h] at hc
  cases hc with
  | keyword hm => exact absurd hm (by simp [Vocabulary.keywords])
  | typeName hn => exact Option.isSome_iff_exists.1 hn

theorem Literal.chars_of_isIdentifier {s : String} (h : isIdentifier s = true) :
    ∃ c cs, s.toList = c :: cs ∧ Text.isWordStart c = true ∧
      ∀ d ∈ cs, Text.isWordChar d = true := by
  unfold isIdentifier at h
  split at h
  · rename_i c cs hcs
    obtain ⟨hc, hall⟩ := Bool.and_eq_true_iff.1 h
    exact ⟨c, cs, hcs, hc, List.all_eq_true.1 hall⟩
  · cases h

theorem Literal.isWordChar_of_isIdentifier {s : String} (h : isIdentifier s = true) :
    ∀ c ∈ s.toList, Text.isWordChar c = true := by
  obtain ⟨c, cs, hs, hc, hcs⟩ := chars_of_isIdentifier h
  rw [hs]
  exact List.forall_mem_cons.2 ⟨Text.isWordChar_of_isWordStart hc, hcs⟩

/-- What an identifier is, and what it is not. -/
structure Identified (text : String) : Prop where
  isIdentifier : Literal.isIdentifier text = true
  isNumber : Literal.isNumber text = false
  isString : Literal.isString text = false
  isBoolean : Vocabulary.isBoolean text = false
  isRelational : Vocabulary.isRelational text = false

theorem identified_of_classify (h : classify text = .identifier) : Identified text := by
  unfold classify at h
  split at h
  · rename_i kind hkind
    have hm := mem_of_lookup hkind
    rw [h] at hm
    exact absurd hm (by simp [Vocabulary.keywords])
  · rename_i hkeyword
    split at h
    · cases h
    · split at h
      · cases h
      · rename_i hrelational
        split at h
        · cases h
        · rename_i hnumber
          split at h
          · cases h
          · rename_i hstring
            split at h
            · rename_i hidentifier
              refine ⟨hidentifier, by simpa using hnumber, by simpa using hstring, ?_,
                by simpa using hrelational⟩
              have hno : ∀ p ∈ Vocabulary.keywords, text ≠ p.1 := fun p hp => by
                simpa using List.lookup_eq_none_iff.1 hkeyword p hp
              simp [Vocabulary.isBoolean, hno ("true", .boolean) (by simp [Vocabulary.keywords]),
                hno ("false", .boolean) (by simp [Vocabulary.keywords])]
            · cases h

/-! ## The tokens of a line -/

namespace Token

/-- The kind of a token is that of its text, and it has one. -/
def Valid (t : Token) : Prop := t.kind = classify t.text ∧ t.kind ≠ .invalid

theorem ofLexeme_ok {l : Lexeme} {t : Token} (h : ofLexeme l = .ok t) :
    t.text = l.text ∧ t.Valid := by
  unfold ofLexeme at h
  dsimp only at h
  split at h
  · cases h
  · cases h
    exact ⟨rfl, rfl, ‹_›⟩

theorem mapM_ofLexeme_ok {ls : List Lexeme} {ts : List Token} (h : ls.mapM ofLexeme = .ok ts) :
    texts ts = ls.map (·.text) ∧ ∀ t ∈ ts, t.Valid := by
  induction ls generalizing ts with
  | nil =>
    cases h
    exact ⟨rfl, by simp⟩
  | cons l ls ih =>
    rw [List.mapM_cons] at h
    obtain ⟨t, ht, h⟩ := except_bind_ok.1 h
    obtain ⟨ts', hts, h⟩ := except_bind_ok.1 h
    cases h
    obtain ⟨htext, hvalid⟩ := ofLexeme_ok ht
    obtain ⟨hrest, hvalids⟩ := ih hts
    refine ⟨?_, ?_⟩
    · rw [texts, List.map_cons, List.map_cons, htext, ← texts, hrest]
    · intro u hu
      rcases List.mem_cons.1 hu with rfl | hu
      · exact hvalid
      · exact hvalids u hu

theorem valid_of_ofLine {line : String} {ts : List Token} (h : ofLine line = .ok ts) :
    ∀ t ∈ ts, t.Valid :=
  (mapM_ofLexeme_ok h).2

/-- The tokens of a trimmed line have the texts that its blocks are told from. -/
theorem texts_ofLine {line : String} {ts : List Token} (htrim : Text.trim line = line)
    (h : ofLine line = .ok ts) : texts ts = tokenize line := by
  have := (mapM_ofLexeme_ok h).1
  rw [htrim] at this
  exact this

/-- A line opens a block when one of its tokens is an opening brace. -/
theorem opens_iff {line : String} {ts : List Token} (htrim : Text.trim line = line)
    (h : ofLine line = .ok ts) :
    Step.opens (tokenize line) = true ↔ ∃ t ∈ ts, t.kind = .openBrace := by
  rw [← texts_ofLine htrim h, Step.opens, List.contains_iff_mem, texts, List.mem_map]
  constructor
  · rintro ⟨t, ht, htext⟩
    refine ⟨t, ht, ?_⟩
    rw [(valid_of_ofLine h t ht).1, htext]
    rfl
  · rintro ⟨t, ht, hk⟩
    refine ⟨t, ht, text_of_openBrace ?_⟩
    rw [← (valid_of_ofLine h t ht).1, hk]

end Token

namespace Line

/-- The line consists of tokens with the given texts. -/
def Reads (words : List String) (text : String) : Prop :=
  ∃ tokens, Token.ofLine text = .ok tokens ∧ Token.texts tokens = words

theorem reads_iff {words : List String} {text : String} :
    Reads words text ↔ (Token.ofLine text).toOption.map Token.texts = some words := by
  unfold Reads
  cases Token.ofLine text with
  | error l => simp [Except.toOption]
  | ok tokens => simp [Except.toOption]

instance (words : List String) (text : String) : Decidable (Reads words text) :=
  decidable_of_iff _ reads_iff.symm

end Line

end Courtesy
