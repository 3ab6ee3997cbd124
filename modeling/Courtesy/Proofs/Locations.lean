import Courtesy.Diagnostic.Excerpt
import Courtesy.Proofs.Braces
import Courtesy.Proofs.Rescanning

/-!
# Where diagnostics point

A diagnostic that is told while a line is read bears the number of this line, and its column is
within the line (`Step.pointsAt_ofLine`): columns are byte offsets of lexemes and of tokens that
were found in the line (`Location.Stands`). Main statement: every diagnostic of a translation points
at a line of the source, which is shown under it, but for the missing entry point, which comes last
and has no place; lexical diagnostics point at the first lexeme without a kind; and the diagnostics
of the lines come in the order of the lines.
-/

namespace Courtesy

open Statement Text

/-! ## Bytes in front of a token -/

namespace Location

/-- A token stands in a line with the given number of bytes in front of it. -/
def Stands (token line : List Char) (offset : Nat) : Prop :=
  ∃ front back, line = front ++ (token ++ back) ∧ offset = (String.ofList front).utf8ByteSize

variable {token line cs : List Char} {offset k : Nat}

theorem Stands.head (token back : List Char) : Stands token (token ++ back) 0 :=
  ⟨[], back, rfl, rfl⟩

theorem Stands.cons (h : Stands token line offset) (c : Char) :
    Stands token (c :: line) (c.utf8Size + offset) := by
  obtain ⟨front, back, rfl, rfl⟩ := h
  refine ⟨c :: front, back, rfl, ?_⟩
  rw [String.ofList_cons, String.utf8ByteSize_append, String.utf8ByteSize_singleton]

/-- A token that is not empty starts inside the line. -/
theorem Stands.lt (h : Stands token line offset) (hne : token ≠ []) :
    offset < (String.ofList line).utf8ByteSize := by
  obtain ⟨front, back, rfl, rfl⟩ := h
  obtain ⟨c, token, rfl⟩ := List.exists_cons_of_ne_nil hne
  have hpos := c.utf8Size_pos
  rw [String.ofList_append, String.utf8ByteSize_append, List.cons_append, String.ofList_cons,
    String.utf8ByteSize_append, String.utf8ByteSize_singleton]
  omega

theorem stands_of_isPrefixOf (h : token.isPrefixOf line = true) : Stands token line 0 := by
  obtain ⟨back, rfl⟩ := List.isPrefixOf_iff_prefix.1 h
  exact .head token back

theorem stands_of_firstFrom (h : firstFrom token offset cs = some k) :
    ∃ n, k = offset + n ∧ Stands token cs n := by
  induction cs generalizing offset with
  | nil =>
    rw [firstFrom] at h
    split at h
    · rename_i hempty
      cases h
      rw [List.isEmpty_iff.1 hempty]
      exact ⟨0, rfl, .head [] []⟩
    · cases h
  | cons c cs ih =>
    rw [firstFrom] at h
    split at h
    · rename_i hhere
      cases h
      exact ⟨0, rfl, stands_of_isPrefixOf hhere⟩
    · obtain ⟨n, rfl, hn⟩ := ih h
      exact ⟨c.utf8Size + n, Nat.add_assoc _ _ _, hn.cons c⟩

theorem stands_of_wholeFrom {inWord : Bool} (h : wholeFrom token inWord offset cs = some k) :
    ∃ n, k = offset + n ∧ Stands token cs n := by
  induction cs generalizing inWord offset with
  | nil =>
    rw [wholeFrom] at h
    split at h
    · rename_i hempty
      cases h
      rw [List.isEmpty_iff.1 (Bool.and_eq_true_iff.1 hempty).1]
      exact ⟨0, rfl, .head [] []⟩
    · cases h
  | cons c cs ih =>
    rw [wholeFrom] at h
    split at h
    · rename_i hhere
      cases h
      exact ⟨0, rfl,
        stands_of_isPrefixOf (Bool.and_eq_true_iff.1 (Bool.and_eq_true_iff.1 hhere).1).2⟩
    · obtain ⟨n, rfl, hn⟩ := ih h
      exact ⟨c.utf8Size + n, Nat.add_assoc _ _ _, hn.cons c⟩

theorem stands_of_offset? {token line : String} (h : offset? token line = some k) :
    Stands token.toList line.toList k := by
  have hfound : ∃ n, k = 0 + n ∧ Stands token.toList line.toList n := by
    rw [offset?, orElse_eq_some] at h
    rcases h with h | ⟨-, h⟩
    · exact stands_of_wholeFrom h
    · exact stands_of_firstFrom h
  obtain ⟨n, rfl, hn⟩ := hfound
  rwa [Nat.zero_add]

theorem offset?_lt {token line : String} (hne : token ≠ "") (h : offset? token line = some k) :
    k < line.utf8ByteSize := by
  have hlt := (stands_of_offset? h).lt fun hnil => hne (String.toList_eq_nil_iff.1 hnil)
  rwa [String.ofList_toList] at hlt

/-- A place that is located is an occurrence in its line. -/
theorem locate?_some {lines : List String} {token : String} {start : Int} {line column : Nat}
    (h : locate? lines token start = some (line, column)) :
    token ≠ "" ∧ ∃ text offset, lines[line - 1]? = some text ∧ offset? token text = some offset ∧
      column = offset + 1 := by
  unfold locate? at h
  split at h
  · cases h
  · rename_i htoken
    rw [Bool.not_eq_true, Bool.or_eq_false_iff, beq_eq_false_iff_ne] at htoken
    obtain ⟨back, -, h⟩ := List.exists_of_findSome?_eq_some h
    split at h
    · obtain ⟨text, htext, h⟩ := Option.bind_eq_some_iff.1 h
      obtain ⟨offset, hoffset, h⟩ := Option.bind_eq_some_iff.1 h
      cases h
      exact ⟨htoken.1, text, offset, htext, hoffset, rfl⟩
    · cases h

/-- A column that is looked for in a line is within this line. -/
theorem columnAt_le {lines : List String} {i : Nat} {text : String} (hi : lines[i]? = some text)
    (token : String) : columnAt lines token i ≤ text.utf8ByteSize := by
  unfold columnAt
  split
  · rename_i line column h
    split
    · rename_i hline
      obtain ⟨hne, text', offset, htext', hoffset, rfl⟩ := locate?_some h
      rw [hline, Nat.add_sub_cancel, hi] at htext'
      cases htext'
      exact offset?_lt hne hoffset
    · exact Nat.zero_le _
  · exact Nat.zero_le _

end Location

/-! ## Lexemes in their line -/

namespace Lexeme

open Location

theorem mem_scanFrom {l : Lexeme} {skip offset : Nat} {cs : List Char}
    (h : l ∈ scanFrom skip offset cs) :
    ∃ n p rest, l.offset = offset + n ∧ l.text = normalise p ∧ Piece p rest ∧ Stands p cs n := by
  induction cs generalizing skip offset with
  | nil =>
    rw [scanFrom] at h
    cases h
  | cons c cs ih =>
    have hlater : ∀ skip, l ∈ scanFrom skip (offset + c.utf8Size) cs →
        ∃ n p rest, l.offset = offset + n ∧ l.text = normalise p ∧ Piece p rest ∧
          Stands p (c :: cs) n := by
      intro skip h
      obtain ⟨n, p, rest, hoffset, htext, hp, hn⟩ := ih h
      exact ⟨c.utf8Size + n, p, rest, by rw [hoffset, Nat.add_assoc], htext, hp, hn.cons c⟩
    cases skip with
    | succ skip =>
      rw [scanFrom] at h
      exact hlater skip h
    | zero =>
      rw [scanFrom] at h
      split at h
      · exact hlater 0 h
      · rename_i hgap
        split at h
        · rename_i n hn
          rcases List.mem_cons.1 h with rfl | h
          · obtain ⟨p, rest, hcs, hlen, hp⟩ := exists_piece (Bool.eq_false_iff.2 hgap) hn
            refine ⟨0, p, rest, rfl, ?_, hp, hcs ▸ .head p rest⟩
            have hlen : n + 1 = p.length := hlen
            rw [hcs, hlen, List.take_left]
          · exact hlater n h
        · cases h

theorem Piece.ne_nil {p rest : List Char} (h : Piece p rest) : p ≠ [] := by
  cases h with
  | phrase _ hp _ => exact hp.ne_nil
  | literal _ hp => rw [hp]; exact List.cons_ne_nil _ _
  | opened _ hp _ => rw [hp]; exact List.cons_ne_nil _ _
  | ordinary _ hp _ _ => rw [hp]; exact List.cons_ne_nil _ _

theorem column_le {l : Lexeme} {line : String} (h : l ∈ scan line) :
    l.column ≤ line.utf8ByteSize := by
  obtain ⟨n, p, rest, hoffset, -, hp, hn⟩ := mem_scanFrom h
  have hlt := hn.lt hp.ne_nil
  rw [String.ofList_toList] at hlt
  rw [column, hoffset]
  omega

/-- Phrases have kinds. -/
theorem classify_phrase : ∀ ws ∈ phrases, classify (spaced (ws.map String.ofList)) ≠ .invalid := by
  decide +kernel

/-- A lexeme without a kind is kept as it stands in the line. -/
theorem Piece.verbatim_of_invalid {p rest : List Char} (h : Piece p rest)
    (hinvalid : classify (normalise p) = .invalid) : (normalise p).toList = p := by
  by_cases hphrase : ∃ ws ∈ phrases, Spells ws p
  · obtain ⟨ws, hws, hp⟩ := hphrase
    rw [normalise_spells hp] at hinvalid ⊢
    split at hinvalid
    · exact absurd hinvalid (classify_phrase ws hws)
    · rename_i hno
      rw [if_neg hno, String.toList_ofList]
  · exact h.verbatim fun ws hws hp => hphrase ⟨ws, hws, hp⟩

theorem stands_of_invalid {l : Lexeme} {line : String} (h : l ∈ scan line)
    (hinvalid : classify l.text = .invalid) : Stands l.text.toList line.toList l.offset := by
  obtain ⟨n, p, rest, hoffset, htext, hp, hn⟩ := mem_scanFrom h
  rw [htext] at hinvalid ⊢
  rwa [hp.verbatim_of_invalid hinvalid, hoffset, Nat.zero_add]

end Lexeme

namespace Token

/-- A line is refused at its first lexeme without a kind. -/
theorem mapM_ofLexeme_error {ls : List Lexeme} {l : Lexeme} (h : ls.mapM ofLexeme = .error l) :
    ∃ before behind, ls = before ++ l :: behind ∧ (∀ m ∈ before, classify m.text ≠ .invalid) ∧
      classify l.text = .invalid := by
  induction ls with
  | nil => cases h
  | cons m ls ih =>
    rw [List.mapM_cons] at h
    by_cases hm : classify m.text = .invalid
    · have herror : ofLexeme m = .error m := if_pos hm
      rw [herror] at h
      cases h
      exact ⟨[], ls, rfl, List.forall_mem_nil _, hm⟩
    · have hok : ofLexeme m = .ok ⟨m.text, classify m.text, m.column⟩ := if_neg hm
      rw [hok] at h
      cases hls : ls.mapM ofLexeme with
      | ok ts =>
        rw [hls] at h
        cases h
      | error l' =>
        rw [hls] at h
        cases h
        obtain ⟨before, behind, rfl, hbefore, hl⟩ := ih hls
        refine ⟨m :: before, behind, rfl, ?_, hl⟩
        intro k hk
        rcases List.mem_cons.1 hk with rfl | hk
        · exact hm
        · exact hbefore k hk

theorem column_le {line : String} (htrim : trim line = line) {first : Token} {rest : List Token}
    (h : ofLine line = .ok (first :: rest)) : first.column ≤ line.utf8ByteSize := by
  rw [ofLine, htrim] at h
  cases hscan : Lexeme.scan line with
  | nil =>
    rw [hscan] at h
    cases h
  | cons l ls =>
    rw [hscan, List.mapM_cons] at h
    obtain ⟨t, ht, h⟩ := except_bind_ok.1 h
    obtain ⟨ts, -, h⟩ := except_bind_ok.1 h
    cases h
    have hcolumn : first.column = l.column := by
      unfold ofLexeme at ht
      dsimp only at ht
      split at ht
      · cases ht
      · cases ht
        rfl
    rw [hcolumn]
    exact Lexeme.column_le (hscan ▸ List.mem_cons_self)

end Token

/-! ## What is told while a line is read -/

namespace Category

theorem structural_ne_lexical : structural ≠ lexical := by decide

theorem semantic_ne_lexical : semantic ≠ lexical := by decide

theorem ofWording_ne_lexical (message : String) : ofWording message ≠ .lexical := by
  unfold ofWording
  split
  · decide
  · split <;> decide

end Category

theorem Statement.Fault.category_ne_lexical (fault : Fault) : fault.category ≠ .lexical := by
  cases fault with
  | expression _ fault => exact Category.ofWording_ne_lexical fault.message
  | condition _ fault => exact Category.ofWording_ne_lexical fault.message
  | _ =>
    delta category
    dsimp only
    decide

namespace Diagnostic

/-- A diagnostic refuses the first lexeme of a line that has no kind, and this lexeme starts at its
column. -/
def Refuses (d : Diagnostic) (text : String) : Prop :=
  ∃ before l behind, Lexeme.scan text = before ++ l :: behind ∧
    (∀ m ∈ before, classify m.text ≠ .invalid) ∧ classify l.text = .invalid ∧
    d.message = l.refusal ∧
    ∃ front back, text = front ++ l.text ++ back ∧ d.column = front.utf8ByteSize + 1

/-- A diagnostic points at a line with a number: the column, if there is one, is within the line,
and a lexical diagnostic points at what it refuses. -/
structure PointsAt (d : Diagnostic) (text : String) (number : Nat) : Prop where
  line : d.line = number
  column : 0 ≤ d.column ∧ d.column ≤ text.utf8ByteSize
  lexical : d.category = .lexical → d.Refuses text

end Diagnostic

namespace Step

open Diagnostic

variable {st : State} {text : String}

theorem pointsAt_perform (hline : st.lines[st.line]? = some text) (htrim : trim text = text) :
    ∀ d ∈ Event.diagnostics (perform st text).1.events, d.PointsAt text st.lineNumber := by
  unfold perform
  split
  · rename_i l hl
    intro d hd
    rw [List.mem_singleton.1 hd]
    rw [Token.ofLine, htrim] at hl
    obtain ⟨before, behind, hscan, hbefore, hinvalid⟩ := Token.mapM_ofLexeme_error hl
    have hmem : l ∈ Lexeme.scan text := hscan ▸ List.mem_append_right _ List.mem_cons_self
    refine ⟨rfl, ⟨Int.natCast_nonneg _, Int.ofNat_le.2 (Lexeme.column_le hmem)⟩, fun _ => ?_⟩
    obtain ⟨front, back, htext, hoffset⟩ := Lexeme.stands_of_invalid hmem hinvalid
    refine ⟨before, l, behind, hscan, hbefore, hinvalid, rfl, String.ofList front,
      String.ofList back, ?_, ?_⟩
    · rw [← String.toList_inj]
      simp [htext]
    · show ((l.offset + 1 : Nat) : Int) = _
      rw [hoffset]
      rfl
  · intro d hd
    cases hd
  · rename_i first rest hl
    dsimp only
    split
    · intro d hd
      rw [List.mem_singleton.1 hd]
      exact ⟨rfl, ⟨Int.natCast_nonneg _, Int.ofNat_le.2 (Token.column_le htrim hl)⟩,
        fun h => absurd h Category.structural_ne_lexical⟩
    · rename_i fault _
      intro d hd
      rw [List.mem_singleton.1 hd]
      exact ⟨rfl, ⟨Int.natCast_nonneg _, Int.ofNat_le.2 (Location.columnAt_le hline _)⟩,
        fun h => absurd h fault.category_ne_lexical⟩
    · intro d hd
      cases hd

theorem pointsAt_missingReturn (st : State) (text : String) :
    ∀ d ∈ Event.diagnostics (missingReturn st), d.PointsAt text st.lineNumber := by
  intro d hd
  unfold missingReturn at hd
  split at hd
  · cases hd
  · split at hd
    · cases hd
    · split at hd
      · rw [List.mem_singleton.1 hd]
        exact ⟨rfl, ⟨Int.le_refl 0, Int.natCast_nonneg _⟩,
          fun h => absurd h Category.semantic_ne_lexical⟩
      · cases hd

/-- What is told while a line is read points at this line. -/
theorem pointsAt_ofLine (hline : st.lines[st.line]? = some text) (htrim : trim text = text) :
    ∀ d ∈ Event.diagnostics (ofLine st text).events, d.PointsAt text st.lineNumber := by
  by_cases ht : text = "\x7d"
  · subst ht
    cases hb : st.blocks with
    | nil =>
      intro d hd
      rw [stray_ofLine hb] at hd
      rw [List.mem_singleton.1 hd]
      have hcolumn : (0 : Int) ≤ 1 ∧ (1 : Int) ≤ "\x7d".utf8ByteSize := by decide
      exact ⟨rfl, hcolumn, fun h => absurd h Category.structural_ne_lexical⟩
    | cons b outer =>
      rw [ofLine_closing_cons hb]
      dsimp only
      split
      · exact pointsAt_missingReturn _ _
      · intro d hd
        cases hd
  · have hmarked : (marked st text).lines[(marked st text).line]? = some text := by
      rwa [marked_lines, marked_line]
    have hnumber : (marked st text).lineNumber = st.lineNumber := by
      rw [State.lineNumber, marked_line]
      rfl
    rw [ofLine_statement ht, ← hnumber]
    dsimp only
    exact pointsAt_perform hmarked htrim

end Step

/-! ## Lines that are left open -/

namespace Nesting

/-- The line of an open number opens a block. -/
theorem mem_stackFrom {stack : List Nat} {lines : List String} {number n : Nat}
    (h : n ∈ stackFrom stack lines number) :
    n ∈ stack ∨ ∃ k text, lines[k]? = some text ∧ n = number + k ∧ "\x7b" ∈ tokenize text := by
  induction lines generalizing stack number with
  | nil => exact .inl h
  | cons text lines ih =>
    rw [stackFrom_cons] at h
    rcases ih h with h | ⟨k, text', hk, rfl, hopens⟩
    · unfold stackBehind at h
      split at h
      · exact .inl (List.mem_of_mem_tail h)
      · split at h
        · rename_i hopens
          rcases List.mem_cons.1 h with rfl | h
          · exact .inr ⟨0, text, rfl, rfl, hopens⟩
          · exact .inl h
        · exact .inl h
    · exact .inr ⟨k + 1, text', hk, by omega, hopens⟩

theorem exists_of_mem_openLines {lines : List String} {n : Nat} (h : n ∈ openLines lines) :
    ∃ k text, lines[k]? = some text ∧ n = k + 1 ∧ "\x7b" ∈ tokenize text := by
  rcases mem_stackFrom h with h | ⟨k, text, hk, rfl, hopens⟩
  · cases h
  · exact ⟨k, text, hk, Nat.add_comm 1 k, hopens⟩

end Nesting

/-! ## Excerpts -/

namespace Diagnostic

/-- The line with the mark under the column of a diagnostic. -/
def caret (d : Diagnostic) : String :=
  if 0 < d.column then "    " ++ String.ofList (List.replicate (d.column - 1).toNat ' ') ++ "^\n"
  else ""

/-- Under a diagnostic stands the line that it has the number of. -/
theorem excerpt_eq {lines : List String} {d : Diagnostic} {k : Nat} {text : String}
    (hk : lines[k]? = some text) (hline : d.line = (k + 1 : Nat)) :
    d.excerpt lines = "    " ++ text ++ "\n" ++ d.caret := by
  have hpos : 0 < d.line := by omega
  have hindex : (d.line - 1).toNat = k := by omega
  have hfound : (d.lineIndex? lines).bind (lines[·]?) = some text := by
    rw [lineIndex?, if_neg (by omega), hindex]
    exact hk
  unfold excerpt caret
  rw [hfound]
  dsimp only
  by_cases hcolumn : 0 < d.column
  · have hmarked : (decide (d.line > 0) && decide (d.column > 0)) = true := by
      simp [hpos, hcolumn]
    rw [if_pos hmarked, if_pos hcolumn]
    simp only [String.append_assoc]
  · have hmarked : ¬ (decide (d.line > 0) && decide (d.column > 0)) = true := by
      simp [hcolumn]
    rw [if_neg hmarked, if_neg hcolumn, String.append_empty]

end Diagnostic

theorem excerpts_append (source : String) (ds es : List Diagnostic) :
    excerpts source (ds ++ es) = excerpts source ds ++ excerpts source es := by
  rw [excerpts, List.map_append, String.join_append]
  rfl

/-- The excerpts of a list of diagnostics show each of them behind those in front of it. -/
theorem excerpts_eq (source : String) {ds : List Diagnostic} {i : Nat} {d : Diagnostic}
    (h : ds[i]? = some d) :
    excerpts source ds = excerpts source (ds.take i) ++ d.display (solidLines (lines source)) ++
      excerpts source (ds.drop (i + 1)) := by
  have hsplit : ds = ds.take i ++ ([d] ++ ds.drop (i + 1)) := by
    obtain ⟨hi, rfl⟩ := List.getElem?_eq_some_iff.1 h
    rw [List.singleton_append, List.getElem_cons_drop, List.take_append_drop]
  have hone : excerpts source [d] = d.display (solidLines (lines source)) := by
    simp [excerpts]
  rw [← hone, String.append_assoc, ← excerpts_append, ← excerpts_append, ← hsplit]

/-! ## Whole translations -/

namespace Run

variable {program : List String}

/-- What is told while the line with index `k` is read points at this line. -/
theorem pointsAt_told (htrim : ∀ text ∈ program, trim text = text) {k : Nat} {text : String}
    (hk : program[k]? = some text) :
    ∀ d ∈ Event.diagnostics (Step.ofLine (before program k) text).events,
      d.PointsAt text (k + 1) := by
  obtain ⟨hlt, -⟩ := List.getElem?_eq_some_iff.1 hk
  have hline : (before program k).line = k := before_line (Nat.le_of_lt hlt)
  have hnumber : (before program k).lineNumber = k + 1 := congrArg (· + 1) hline
  have htext : (before program k).lines[(before program k).line]? = some text := by
    rwa [before_lines, hline]
  rw [← hnumber]
  exact Step.pointsAt_ofLine htext (htrim text (List.mem_of_getElem? hk))

/-- The diagnostics of the lines come in the order of the lines. -/
theorem pairwise_line (htrim : ∀ text ∈ program, trim text = text) :
    ((ofLines program).diagnostics.filter (!·.terminal)).Pairwise (·.line ≤ ·.line) := by
  have hend : (Event.diagnostics (closingEvents (before program program.length))).filter
      (!·.terminal) = [] := by
    rw [diagnostics_closingEvents, List.filter_eq_nil_iff]
    intro d hd
    rcases List.mem_append.1 hd with hd | hd
    · obtain ⟨n, -, rfl⟩ := List.mem_map.1 hd
      exact Bool.false_ne_true
    · split at hd
      · cases hd
      · rw [List.mem_singleton.1 hd]
        exact Bool.false_ne_true
  have hline : ∀ p ∈ program.zipIdx,
      ∀ d ∈ Event.diagnostics (Step.ofLine (before program p.2) p.1).events,
        d.line = (p.2 + 1 : Nat) := by
    intro p hp d hd
    exact (pointsAt_told htrim (List.mk_mem_zipIdx_iff_getElem?.1 hp) d hd).line
  rw [diagnostics_ofLines, List.filter_append, hend, List.append_nil]
  refine List.Pairwise.filter _ (List.pairwise_flatMap.2 ⟨?_, ?_⟩)
  · intro p hp
    refine List.pairwise_of_forall_mem_list ?_
    intro d hd e he
    exact Int.le_of_eq ((hline p hp d hd).trans (hline p hp e he).symm)
  · refine (pairwise_zipIdx program).imp_of_mem ?_
    intro p q hp hq hlt d hd e he
    rw [hline p hp d hd, hline q hq e he]
    omega

/-- A diagnostic is told about the line with index `k`: while this line is read, or since it is the
first that is left open. -/
def ToldAt (program : List String) (d : Diagnostic) (k : Nat) (text : String) : Prop :=
  (d.terminal = false ∧ d ∈ Event.diagnostics (Step.ofLine (before program k) text).events) ∨
    d = .unclosed (k + 1) ∧ (Nesting.openLines program).min? = some (k + 1)

/-- The diagnostics of a run apart from the missing entry point. -/
def placed (program : List String) : List Diagnostic :=
  (program.zipIdx.flatMap fun p => Event.diagnostics (Step.ofLine (before program p.2) p.1).events)
    ++ (Nesting.openLines program).min?.toList.map Diagnostic.unclosed

theorem diagnostics_eq_placed (program : List String) :
    (ofLines program).diagnostics = placed program ++
      if (before program program.length).hasEntryPoint then [] else [Diagnostic.noEntryPoint] := by
  rw [diagnostics_ofLines, diagnostics_closingEvents, stack_before, List.take_length,
    Nesting.getLast?_openLines, placed, List.append_assoc]

/-- All diagnostics but the one about the entry point have a place in the program. -/
theorem exists_toldAt (htrim : ∀ text ∈ program, trim text = text) {d : Diagnostic}
    (hd : d ∈ placed program) :
    ∃ k text, program[k]? = some text ∧ d.PointsAt text (k + 1) ∧ ToldAt program d k text := by
  rcases List.mem_append.1 hd with hd | hd
  · obtain ⟨p, hp, hd⟩ := List.mem_flatMap.1 hd
    have hk := List.mk_mem_zipIdx_iff_getElem?.1 hp
    exact ⟨p.2, p.1, hk, pointsAt_told htrim hk d hd, .inl ⟨Step.terminal_ofLine _ _ d hd, hd⟩⟩
  · obtain ⟨n, hn, rfl⟩ := List.mem_map.1 hd
    have hmin : (Nesting.openLines program).min? = some n := Option.mem_toList.1 hn
    obtain ⟨k, text, hk, rfl, -⟩ := Nesting.exists_of_mem_openLines (List.min?_mem hmin)
    exact ⟨k, text, hk, ⟨rfl, ⟨Int.le_refl 0, Int.natCast_nonneg _⟩,
      fun h => absurd h Category.structural_ne_lexical⟩, .inr ⟨rfl, hmin⟩⟩

end Run

/-- Diagnostics point into the source. The one about the missing entry point has no line and comes
last. Any other bears the number of a line: of the line that was being read when it was told, or of
the first line that is left open. Its column is within this line, and the line is what its excerpt
shows. A lexical diagnostic points at the first lexeme of its line that has no kind. What is told
about the lines is told in their order. -/
theorem diagnostics_located (source : String) :
    let program := solidLines (lines source)
    let told := (translate source).diagnostics
    (∀ i d, told[i]? = some d →
      (d.line = 0 → d = .noEntryPoint ∧ i + 1 = told.length) ∧
      (d.line ≠ 0 → 1 ≤ d.line ∧ d.line ≤ (program.length : Int) ∧
        ∃ k text, program[k]? = some text ∧ d.PointsAt text (k + 1) ∧ Run.ToldAt program d k text ∧
          excerpts source told = excerpts source (told.take i) ++
            (d.category.name ++ ": " ++ d.text ++ "\n" ++ ("    " ++ text ++ "\n" ++ d.caret)) ++
            excerpts source (told.drop (i + 1)))) ∧
    (told.filter (!·.terminal)).Pairwise (·.line ≤ ·.line) := by
  intro program told
  have htrim : ∀ text ∈ program, trim text = text := fun text h => trim_of_mem_solidLines h
  have htold : told = Run.placed program ++
      if (Run.before program program.length).hasEntryPoint then [] else [Diagnostic.noEntryPoint] :=
    Run.diagnostics_eq_placed program
  refine ⟨?_, Run.pairwise_line htrim⟩
  intro i d hi
  rcases Nat.lt_or_ge i (Run.placed program).length with hlt | hge
  · rw [htold, List.getElem?_append_left hlt] at hi
    obtain ⟨k, text, hk, hpoints, htoldAt⟩ := Run.exists_toldAt htrim (List.mem_of_getElem? hi)
    have hline := hpoints.line
    obtain ⟨hlength, -⟩ := List.getElem?_eq_some_iff.1 hk
    refine ⟨fun hzero => by omega, fun _ => ⟨by omega, by omega, k, text, hk, hpoints, htoldAt, ?_⟩⟩
    rw [← Diagnostic.excerpt_eq hk hline]
    refine excerpts_eq source ?_
    rw [htold, List.getElem?_append_left hlt]
    exact hi
  · rw [htold, List.getElem?_append_right hge] at hi
    split at hi
    · cases hi
    · rename_i hentry
      rw [List.getElem?_singleton] at hi
      split at hi
      · rename_i hlast
        cases hi
        refine ⟨fun _ => ⟨rfl, ?_⟩, fun hzero => absurd rfl hzero⟩
        rw [htold, if_neg hentry, List.length_append, List.length_singleton]
        omega
      · cases hi

/-- The second line of a program holds a sign without a kind behind a letter of two bytes; the third
line is left open, and there is no entry point. -/
theorem diagnostics_located_sample :
    let source :=
      "\n please create text x\n\n  x equals \"é\" $ \nplease define function void f() \x7b"
    ∃ d text, (translate source).diagnostics[0]? = some d ∧ d.line = 2 ∧ d.column = 15 ∧
      d.category = .lexical ∧ (solidLines (lines source))[1]? = some text ∧ d.Refuses text ∧
      (translate source).diagnostics[1]? = some (.unclosed 3) ∧
      (translate source).diagnostics[2]? = some .noEntryPoint ∧
      (translate source).diagnostics.length = 3 := by
  intro source
  obtain ⟨hplaces, -⟩ := diagnostics_located source
  let d : Diagnostic :=
    { category := .lexical, message := "Unknown command: unrecognized token \"$\"", line := 2,
      column := 15 }
  have hall : (translate source).diagnostics = [d, .unclosed 3, .noEntryPoint] := by decide +kernel
  have hfirst : (translate source).diagnostics[0]? = some d := by rw [hall]; rfl
  have hlast : (translate source).diagnostics[2]? = some .noEntryPoint := by rw [hall]; rfl
  obtain ⟨-, -, k, text, hk, hpoints, -, -⟩ := (hplaces 0 d hfirst).2 (by decide)
  have hsecond : k = 1 := by
    have hline := hpoints.line
    have hnumber : d.line = 2 := rfl
    omega
  rw [hsecond] at hk
  exact ⟨d, text, hfirst, rfl, rfl, rfl, hk, hpoints.lexical rfl, by rw [hall]; rfl, hlast,
    ((hplaces 2 _ hlast).1 rfl).2.symm⟩

end Courtesy
