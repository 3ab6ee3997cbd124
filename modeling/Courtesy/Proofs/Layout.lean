import Courtesy.Proofs.Rendering

/-!
# The layout of a clean translation

Where nothing is told against a program, its code is laid out in blocks (`clean_body_laid`): braces
match, each stands as far to the right as the head of its block, and any other line as its depth
says.

The braces come from two places. A line opens a block when one of its tokens is a brace, while the
brace in the code comes from the statement; `Performed.shape` says that for accepted statements both
happen together.
-/

namespace Courtesy

open Text Statement

/-! ## Lines and their lead -/

namespace Layout

/-- The number of spaces in front of a line. -/
def lead (line : String) : Nat := (line.toList.takeWhile (· == ' ')).length

/-- A line without the spaces in front of it. -/
def content (line : String) : String := String.ofList (line.toList.dropWhile (· == ' '))

/-- Whether a text is the head of a block. -/
def isHead (text : String) : Bool :=
  ["if (", "while (", "for (", "public static "].any (startsWith · text)

/-- Whether lines are laid out in blocks, given the leads of the braces that are open in front of
them, the innermost first, and the line above. -/
def isLaid : List Nat → Option String → List String → Bool
  | opened, _, [] => opened.isEmpty
  | opened, above, line :: rest =>
    if content line = "\x7b" then
      above.any (fun head => isHead (content head) && lead line == lead head)
        && isLaid (lead line :: opened) (some line) rest
    else if content line = "\x7d" then
      opened.head? == some (lead line) && isLaid opened.tail (some line) rest
    else lead line == 4 * opened.length && isLaid opened (some line) rest

example : isLaid [] none ["if (a)", "\x7b", "    b = 1;", "\x7d"] = true := by decide +kernel

example : isLaid [] none ["if (a)", "\x7b", "b = 1;", "\x7d"] = false := by decide +kernel

section

variable {code : String} {c : Char} {cs : List Char}

theorem lead_indent (h : code.toList = c :: cs) (hc : c ≠ ' ') (level : Nat) :
    lead (Target.indent level ++ code) = 4 * level := by
  rw [lead, String.toList_append, Target.toList_indent, h, List.takeWhile_append_of_pos]
  · simp [hc]
  · intro x hx
    simp [(List.mem_replicate.1 hx).2]

theorem content_indent (h : code.toList = c :: cs) (hc : c ≠ ' ') (level : Nat) :
    content (Target.indent level ++ code) = code := by
  rw [content, String.toList_append, Target.toList_indent, h, List.dropWhile_append_of_pos]
  · rw [List.dropWhile_cons_of_neg (by simpa using hc), ← h, String.ofList_toList]
  · intro x hx
    simp [(List.mem_replicate.1 hx).2]

end

/-- A text that starts with a word. -/
def StartsWord (text : String) : Prop :=
  ∃ c cs, text.toList = c :: cs ∧ isWordStart c = true

theorem startsWord_of_isHead {text : String} (h : isHead text = true) : StartsWord text := by
  obtain ⟨head, hmem, hstarts⟩ := List.any_eq_true.1 h
  obtain ⟨rest, hrest⟩ := List.isPrefixOf_iff_prefix.1 hstarts
  have hword : ∀ head ∈ ["if (", "while (", "for (", "public static "],
      ∃ c cs, head.toList = c :: cs ∧ isWordStart c = true := by
    simp [isWordStart]
  obtain ⟨c, cs, hhead, hc⟩ := hword head hmem
  exact ⟨c, cs ++ rest, by rw [← hrest, hhead]; rfl, hc⟩

theorem StartsWord.lead_indent {code : String} (h : StartsWord code) (level : Nat) :
    lead (Target.indent level ++ code) = 4 * level := by
  obtain ⟨c, cs, hcode, hc⟩ := h
  refine Layout.lead_indent hcode ?_ level
  rintro rfl
  exact absurd hc (by decide)

theorem StartsWord.content_indent {code : String} (h : StartsWord code) (level : Nat) :
    content (Target.indent level ++ code) = code := by
  obtain ⟨c, cs, hcode, hc⟩ := h
  refine Layout.content_indent hcode ?_ level
  rintro rfl
  exact absurd hc (by decide)

theorem StartsWord.ne_mark {code : String} (h : StartsWord code) {mark : Char}
    (hmark : isWordStart mark = false) : code ≠ String.ofList [mark] := by
  rintro rfl
  obtain ⟨c, cs, hcode, hc⟩ := h
  rw [String.toList_ofList] at hcode
  cases hcode
  rw [hc] at hmark
  cases hmark

theorem isHead_append {text : String} (h : isHead text = true) (more : String) :
    isHead (text ++ more) = true := by
  obtain ⟨head, hmem, hstarts⟩ := List.any_eq_true.1 h
  obtain ⟨rest, hrest⟩ := List.isPrefixOf_iff_prefix.1 hstarts
  refine List.any_eq_true.2 ⟨head, hmem, List.isPrefixOf_iff_prefix.2 ⟨rest ++ more.toList, ?_⟩⟩
  rw [String.toList_append, ← hrest, List.append_assoc]

theorem StartsWord.append {text : String} (h : StartsWord text) (more : String) :
    StartsWord (text ++ more) := by
  obtain ⟨c, cs, htext, hc⟩ := h
  exact ⟨c, cs ++ more.toList, by rw [String.toList_append, htext]; rfl, hc⟩

/-- The leads of the braces that are open at a depth. -/
def braces : Nat → List Nat
  | 0 => []
  | depth + 1 => 4 * depth :: braces depth

@[simp] theorem length_braces (depth : Nat) : (braces depth).length = depth := by
  induction depth with
  | zero => rfl
  | succ depth ih => rw [braces, List.length_cons, ih]

theorem isLaid_text {code : String} (h : StartsWord code) (depth : Nat) (above : Option String)
    (rest : List String) :
    isLaid (braces depth) above ((Target.indent depth ++ code) :: rest) =
      isLaid (braces depth) (some (Target.indent depth ++ code)) rest := by
  rw [isLaid, h.content_indent, if_neg (h.ne_mark (by decide : isWordStart '{' = false)),
    if_neg (h.ne_mark (by decide : isWordStart '}' = false)), h.lead_indent, length_braces]
  simp

theorem isLaid_opening {head : String} (h : isHead head = true) (depth : Nat)
    (rest : List String) :
    isLaid (braces depth) (some (Target.indent depth ++ head))
        ((Target.indent depth ++ "\x7b") :: rest) =
      isLaid (braces (depth + 1)) (some (Target.indent depth ++ "\x7b")) rest := by
  have hword := startsWord_of_isHead h
  have hbrace : "\x7b".toList = ['{'] := rfl
  rw [isLaid, content_indent hbrace (by decide), if_pos rfl, lead_indent hbrace (by decide), braces]
  simp [hword.content_indent, hword.lead_indent, h]

theorem isLaid_closing (depth : Nat) (above : Option String) (rest : List String) :
    isLaid (braces (depth + 1)) above ((Target.indent depth ++ "\x7d") :: rest) =
      isLaid (braces depth) (some (Target.indent depth ++ "\x7d")) rest := by
  have hbrace : "\x7d".toList = ['}'] := rfl
  rw [braces, isLaid, content_indent hbrace (by decide), if_neg (by decide), if_pos rfl,
    lead_indent hbrace (by decide)]
  simp

end Layout

/-! ## The code of accepted statements -/

namespace Statement

open Layout

theorem startsWord_of_identifier {t : Token} (h : t.Valid) (hk : t.kind = .identifier) :
    StartsWord t.text := by
  have hname := (identified_of_classify (h.1.symm.trans hk)).isIdentifier
  obtain ⟨c, cs, hcs, hc, -⟩ := Literal.chars_of_isIdentifier hname
  exact ⟨c, cs, hcs, hc⟩

theorem startsWord_target {t : Token} (h : t.Valid) (hk : t.kind = .typeName) :
    StartsWord ((ValueType.ofName? t.text).getD .invalid).target := by
  obtain ⟨type, htype⟩ := ofName?_of_typeName (h.1.symm.trans hk)
  have hall : ∀ type ∈ ValueType.declared,
      ∃ c cs, type.target.toList = c :: cs ∧ isWordStart c = true := by
    simp [ValueType.declared, ValueType.target, isWordStart]
  rw [htype]
  exact hall type (List.mem_of_find?_eq_some htype)

theorem startsWord_call {scope : Scope} {tokens : List Token} {c : Call}
    (hts : ∀ t ∈ tokens, t.Sound) (h : call scope tokens = .ok c) : StartsWord c.code := by
  obtain ⟨name, _, _, _, _, _, rfl, hname, -, -, -, -, -, -, hcode⟩ := call_ok h
  have hmethod : StartsWord (Target.methodName name.text) := by
    unfold Target.methodName
    split
    · exact ⟨'M', "ain".toList, rfl, by decide⟩
    · exact startsWord_of_identifier (hts name (by simp)).valid hname
  rw [hcode]
  exact ((hmethod.append _).append _).append _

/-- How the code of an accepted statement goes with its tokens: a head and a brace for a brace among
the tokens, else one line that is neither. -/
inductive Shape (tokens : List Token) : List String → Prop
  | block {head : String} (h : ∃ t ∈ tokens, t.kind = .openBrace) (hhead : isHead head = true) :
      Shape tokens (headed head)
  | line {line : String} (h : ∀ t ∈ tokens, t.kind ≠ .openBrace) (hline : StartsWord line) :
      Shape tokens [line]

section

variable {st st' : State} {first : Token} {rest : List Token}

theorem printStatement_shape {scope : Scope} {line : String}
    (hts : ∀ t ∈ first :: rest, t.Sound) (hk : first.kind = .print)
    (h : printStatement scope (first :: rest) = .ok line) : Shape (first :: rest) [line] := by
  obtain ⟨_, _, values, htokens, hvalues, rfl⟩ := printStatement_ok h
  cases htokens
  refine .line (List.forall_mem_cons.2 ⟨by rw [hk]; decide, fun t ht hbrace => ?_⟩) ?_
  · rcases printedValues_ok hvalues t ht with hadd | hkind
    · have hvalid := (hts t (List.mem_cons_of_mem first ht)).valid.1
      rw [hadd, hbrace] at hvalid
      exact absurd hvalid (by decide)
    · rw [hbrace] at hkind
      exact absurd hkind (by decide)
  · have hprint : StartsWord "Console.WriteLine(" :=
      ⟨'C', "onsole.WriteLine(".toList, rfl, by decide⟩
    exact (hprint.append _).append _

/-- The line of a statement without a block starts with a word. -/
theorem Performed.startsWord {line : String} {o : Opening} (hts : ∀ t ∈ first :: rest, t.Sound)
    (h : Performed st (first :: rest) first.kind ⟨st', .ok o⟩)
    (hk : first.kind ∈ [Kind.create, .identifier, .giveBack, .call]) (ho : o.code = [line]) :
    StartsWord line := by
  generalize hkind : first.kind = kind at h hk
  generalize hout : (⟨st', .ok o⟩ : Outcome) = outcome at h
  cases h with
  | created hok =>
    cases hout
    cases ho
    obtain ⟨_, typeToken, _, _, _, htokens, htype, -, -, -, -, -, -, rfl⟩ := declaration_ok hok
    rw [htokens] at hts
    have htarget := startsWord_target (hts typeToken (by simp)).valid htype
    exact ((htarget.append _).append _).append _
  | assigned hok =>
    cases hout
    cases ho
    obtain ⟨name, _, _, _, _, _, htokens, -, -, -, rfl⟩ := assignment_ok hok
    cases htokens
    have hname := startsWord_of_identifier (hts _ List.mem_cons_self).valid hkind
    exact ((hname.append _).append _).append _
  | called hok =>
    cases hout
    cases ho
    obtain ⟨c, hc, rfl⟩ := callStatement_ok hok
    exact (startsWord_call (fun t ht => hts t (List.mem_cons_of_mem first ht)) hc).append _
  | returned hok =>
    cases hout
    cases ho
    rcases (returnStatement_ok hok).2 with ⟨-, rfl⟩ | ⟨_, _, _, _, -, -, rfl⟩
    · exact ⟨'r', "eturn;".toList, rfl, by decide⟩
    · have hreturn : StartsWord "return " := ⟨'r', "eturn ".toList, rfl, by decide⟩
      exact (hreturn.append _).append _
  | refused => cases hout
  | _ => exact absurd hk (by decide)

/-- A brace is emitted exactly when one is read. -/
theorem Performed.shape {o : Opening} (hts : ∀ t ∈ first :: rest, t.Sound)
    (h : Performed st (first :: rest) first.kind ⟨st', .ok o⟩) : Shape (first :: rest) o.code := by
  by_cases hk : first.kind ∈ [Kind.create, .identifier, .giveBack, .call]
  · obtain ⟨line, hline, hrendered⟩ := h.rendered hts hk
    rw [hline]
    exact .line hrendered.braceless (h.startsWord hts hk hline)
  · generalize hkind : first.kind = kind at h hk
    generalize hout : (⟨st', .ok o⟩ : Outcome) = outcome at h
    cases h with
    | printed hok =>
      cases hout
      exact printStatement_shape hts hkind hok
    | looped hok =>
      cases hout
      rcases loop_ok hok with hfor | ⟨hwhile, -⟩
      · obtain ⟨_, _, _, lo, hi, -, -, hbrace, -, -, rfl⟩ := forLoop_ok hfor
        refine .block hbrace ?_
        iterate 9 apply isHead_append
        decide
      · obtain ⟨hbrace, cond, rfl⟩ := whileLoop_ok hwhile
        refine .block hbrace ?_
        exact isHead_append (isHead_append (by decide) cond) ")"
    | checked hok =>
      cases hout
      obtain ⟨hbrace, cond, rfl⟩ := ifStatement_ok hok
      refine .block hbrace ?_
      exact isHead_append (isHead_append (by decide) cond) ")"
    | defined =>
      simp only [Outcome.mk.injEq] at hout
      obtain ⟨header, hheader, -, -, -, rfl⟩ := definition_ok hout.2.symm
      obtain ⟨_, _, _, _, _, brace, htokens, -, -, -, -, hbrace, -⟩ := functionHeader_iff.1 hheader
      refine .block ⟨brace, by rw [htokens]; simp, hbrace⟩ ?_
      iterate 6 apply isHead_append
      decide
    | refused => cases hout
    | _ => exact absurd (by decide) hk

end

end Statement

/-! ## Lines and runs without a diagnostic -/

namespace Step

open Layout

theorem not_accepts_closing {st : State} (h : st.blocks = []) : ¬ Accepts st "\x7d" := by
  simp [Accepts, ofLine, closing, h]

/-- What an accepted statement line emits goes with the blocks that it opens. -/
theorem shape_ofLine {st : State} {text : String} (hne : text ≠ "\x7d") (htrim : trim text = text)
    (hacc : Accepts st text) :
    ∃ code, (ofLine st text).emitted = st.indented code ∧
      (if opens (tokenize text) then ∃ head, code = headed head ∧ isHead head = true
        else code = [] ∨ ∃ line, code = [line] ∧ StartsWord line) := by
  rcases hacc.emitted hne with ⟨hl, hnone⟩ | ⟨first, rest, st', o, hl, hp, hcode⟩
  · refine ⟨[], hnone, ?_⟩
    rw [if_neg]
    · exact .inl rfl
    · rw [Token.opens_iff htrim hl]
      simp
  · refine ⟨o.code, hcode, ?_⟩
    have hopens := Token.opens_iff htrim hl
    have hshape := hp.shape (Token.sound_of_ofLine hl)
    generalize o.code = code at hshape
    cases hshape with
    | block hbrace hhead =>
      rw [if_pos (hopens.2 hbrace)]
      exact ⟨_, rfl, hhead⟩
    | line hbrace hline =>
      rw [if_neg fun ho => by obtain ⟨t, ht, hk⟩ := hopens.1 ho; exact hbrace t ht hk]
      exact .inr ⟨_, rfl, hline⟩

theorem laid_ofLine {st : State} (hc : st.Counted) {text : String} (htrim : trim text = text)
    (hacc : Accepts st text) {tail : List String}
    (htail : ∀ above, isLaid (braces (ofLine st text).state.blocks.length) above tail = true)
    (above : Option String) :
    isLaid (braces st.blocks.length) above ((ofLine st text).emitted ++ tail) = true := by
  by_cases hne : text = "\x7d"
  · subst hne
    cases hb : st.blocks with
    | nil => exact absurd hacc (not_accepts_closing hb)
    | cons b outer =>
      have hi := hc.indent
      rw [hb, List.length_cons] at hi
      rw [ofLine_closing_cons hb] at htail ⊢
      dsimp only at htail ⊢
      simp only [State.indented, hi, Nat.add_sub_cancel, List.map_cons, List.map_nil,
        List.singleton_append, List.length_cons]
      rw [isLaid_closing]
      exact htail _
  · obtain ⟨code, hcode, hshape⟩ := shape_ofLine hne htrim hacc
    rw [blocks_ofLine, Nesting.behind, if_neg hne] at htail
    rw [hcode, State.indented, hc.indent]
    split at hshape
    · rename_i hopens
      rw [if_pos hopens] at htail
      obtain ⟨head, rfl, hhead⟩ := hshape
      simp only [headed, List.map_cons, List.map_nil, List.cons_append, List.nil_append]
      rw [isLaid_text (startsWord_of_isHead hhead), isLaid_opening hhead]
      exact htail _
    · rename_i hopens
      rw [if_neg hopens] at htail
      rcases hshape with rfl | ⟨line, rfl, hline⟩
      · exact htail above
      · simp only [List.map_cons, List.map_nil, List.singleton_append]
        rw [isLaid_text hline]
        exact htail _

theorem laid_ofLines {st : State} (hc : st.Counted) {xs : List String}
    (htrim : ∀ x ∈ xs, trim x = x) (hclean : Event.diagnostics (ofLines st xs).events = [])
    (hend : (ofLines st xs).state.blocks = []) (above : Option String) :
    isLaid (braces st.blocks.length) above (ofLines st xs).emitted = true := by
  induction xs generalizing st above with
  | nil =>
    have hend : st.blocks = [] := hend
    rw [hend]
    rfl
  | cons x xs ih =>
    rw [ofLines, Event.diagnostics_append, List.append_eq_nil_iff] at hclean
    refine laid_ofLine hc (htrim x List.mem_cons_self) hclean.1 ?_ above
    exact ih (counted_ofLine hc x) (fun y hy => htrim y (List.mem_cons_of_mem x hy)) hclean.2 hend

/-- The code of lines is the code of one line after the other. -/
theorem emitted_ofLines {program : List String} {k : Nat} {xs : List String}
    (h : program.drop k = xs) :
    (ofLines (Run.before program k) xs).emitted =
      (xs.mapIdx fun i line => (ofLine (Run.before program (k + i)) line).emitted).flatten := by
  induction xs generalizing k with
  | nil => rfl
  | cons x xs ih =>
    obtain ⟨hx, hrest⟩ := getElem?_of_drop h
    rw [ofLines, List.mapIdx_cons, List.flatten_cons, ← Run.before_succ hx, ih hrest]
    simp only [Nat.add_zero, Nat.add_assoc, Nat.add_comm 1]

end Step

/-- A program against which nothing is told: its code is that of its lines one after the other, and
is laid out in blocks. -/
theorem clean_body_laid (input : List String)
    (h : (Run.ofLines (solidLines input)).diagnostics = []) :
    let program := solidLines input
    let body := (Run.ofLines program).body
    body =
        (program.mapIdx fun k line => (Step.ofLine (Run.before program k) line).emitted).flatten ∧
      Layout.isLaid [] none body = true := by
  intro program body
  have hall : Event.diagnostics ((Step.ofLines { lines := program } program).events ++
      closingEvents (Step.ofLines { lines := program } program).state) = [] := h
  rw [Event.diagnostics_append, List.append_eq_nil_iff] at hall
  obtain ⟨hlines, hclosing⟩ := hall
  have hend : (Step.ofLines { lines := program } program).state.blocks = [] := by
    rw [closingEvents, Event.diagnostics_append, List.append_eq_nil_iff] at hclosing
    have hblocks := hclosing.1
    split at hblocks
    · rename_i hlast
      exact List.getLast?_eq_none_iff.1 hlast
    · cases hblocks
  refine ⟨?_, ?_⟩
  · have hcode := Step.emitted_ofLines (k := 0) (List.drop_zero (l := program))
    simp only [Nat.zero_add] at hcode
    exact hcode
  · have hstart : State.Counted { lines := program } := ⟨rfl, fun _ => rfl⟩
    exact Step.laid_ofLines hstart (fun x hx => trim_of_mem_solidLines hx) hlines hend none

/-- A block inside of a block. -/
theorem clean_body_laid_sample :
    let program := solidLines ["please define function void main() \x7b",
      "  thank you for looping from 1 to 3 \x7b", "thank you for printing i", "\x7d", "\x7d"]
    let body := (Run.ofLines program).body
    body =
        (program.mapIdx fun k line => (Step.ofLine (Run.before program k) line).emitted).flatten ∧
      Layout.isLaid [] none body = true :=
  clean_body_laid _ (by decide +kernel)

end Courtesy
