import Courtesy.Proofs.Literals
import Courtesy.Proofs.Routes
import Courtesy.Proofs.TargetStrings

/-!
# Literals in the code of a program

The string literals of a program against which nothing is told are the quoted segments of its code
(`quotes_ofLines`). On the way through a value they are spaced as expressions are; in a condition
and where they are printed they are kept.

A literal has no escape sequences, but the target language reads some into it. It is read as what it
says exactly when it holds no backslash and no end of a line and was not spaced
(`clean_body_strings`).
-/

namespace Courtesy

open Text Statement

/-! ## Literals of a program -/

/-- A string literal of a program: the kind of the word or phrase that leads its line, and the text
between the quotes. -/
structure Quotation where
  lead : Kind
  text : String
  deriving DecidableEq, Repr

namespace Quotation

/-- The text between the quotes in the code. -/
def emitted (q : Quotation) : String := String.ofList (spacing q.lead q.text.toList)

/-- The value of the literal as a string of the target language. -/
def value (q : Quotation) : List Nat := Target.encode q.text.toList

/-- The literals that mean the same to the target language. -/
structure Faithful (q : Quotation) : Prop where
  unescaped : '\\' ∉ q.text.toList
  oneLine : ∀ c ∈ q.text.toList, Target.isLineEnd c = false
  unspaced : q.lead ∈ [Kind.create, .identifier, .giveBack, .call] →
    ¬ Expression.RunsOn false q.text.toList

/-- The literals of a line. -/
def ofLine (text : String) : List Quotation :=
  match Token.ofLine text with
  | .ok (first :: rest) => (Token.literals (first :: rest)).map (⟨first.kind, ·⟩)
  | _ => []

/-- The literals of a program, in order. -/
def ofSource (source : String) : List Quotation := (solidLines (lines source)).flatMap ofLine

theorem plain_of_mem_ofLine {text : String} {q : Quotation} (h : q ∈ ofLine text) :
    Plain q.text.toList := by
  unfold ofLine at h
  split at h
  · rename_i first rest hl
    obtain ⟨s, hs, rfl⟩ := List.mem_map.1 h
    obtain ⟨t, ht, rfl⟩ := List.mem_map.1 hs
    obtain ⟨ht, hk⟩ := List.mem_filter.1 ht
    rcases (Token.sound_of_ofLine hl t ht).shape with ⟨-, body, hb, htext⟩ | ⟨hno, -⟩
    · simpa [Token.content, htext] using hb
    · exact absurd (of_decide_eq_true hk) hno
  · cases h

theorem spacing_eq_self_iff (q : Quotation) :
    spacing q.lead q.text.toList = q.text.toList ↔
      (q.lead ∈ [Kind.create, .identifier, .giveBack, .call] →
        ¬ Expression.RunsOn false q.text.toList) := by
  unfold spacing
  split
  · rename_i hk
    rw [Expression.respace_eq_self_iff, forall_prop_of_true hk]
  · rename_i hk
    exact iff_of_true rfl fun h => absurd h hk

/-- A literal comes out as a string with its text as the value exactly when it is faithful. -/
theorem string?_emitted {q : Quotation} (hq : Plain q.text.toList) (rest : List Char) (n : Nat) :
    Target.string? (q.emitted.toList ++ '"' :: rest) = some (q.value, n) ↔
      n = q.emitted.toList.length + 1 ∧ q.Faithful := by
  have hplain : Plain (spacing q.lead q.text.toList) := by
    unfold spacing
    split
    · exact Expression.plain_respace hq false
    · exact hq
  have hspaces : spacing q.lead q.text.toList = q.text.toList ∨
      q.text.toList.count ' ' < (spacing q.lead q.text.toList).count ' ' := by
    unfold spacing
    split
    · exact Expression.respace_spaces false q.text.toList
    · exact .inl rfl
  rw [emitted, String.toList_ofList, value, Target.string?_eq_some_iff hplain hq hspaces,
    spacing_eq_self_iff]
  exact and_congr_right fun _ => ⟨fun ⟨hspaced, hescape, hline⟩ => ⟨hescape, hline, hspaced⟩,
    fun h => ⟨h.unspaced, h.unescaped, h.oneLine⟩⟩

end Quotation

/-! ## Lines and runs without a diagnostic -/

namespace Step

theorem quotes_indented (st : State) {code : List String} (h : ∀ line ∈ code, Closed line.toList) :
    (∀ line ∈ st.indented code, Closed line.toList) ∧
      (st.indented code).flatMap (quoted ·.toList) = code.flatMap (quoted ·.toList) := by
  have hlead := Target.indent_plain st.indent
  refine ⟨?_, ?_⟩
  · intro line hline
    obtain ⟨code, hcode, rfl⟩ := List.mem_map.1 hline
    rw [String.toList_append]
    exact .append (.plain hlead) (h code hcode)
  · rw [State.indented, List.flatMap_map]
    simp only [String.toList_append, quoted_plain_append hlead]

/-- What an accepted line emits quotes the literals of the line. -/
theorem quotes_ofLine {st : State} {text : String} (hacc : Accepts st text) :
    (∀ line ∈ (ofLine st text).emitted, Closed line.toList) ∧
      (ofLine st text).emitted.flatMap (quoted ·.toList) =
        (Quotation.ofLine text).map (·.emitted.toList) := by
  by_cases hne : text = "\x7d"
  · subst hne
    have hnone : Quotation.ofLine "\x7d" = [] := by
      rw [Quotation.ofLine, Token.ofLine_closeBrace]
      rfl
    have hplain : Plain (Target.indent (st.indent - 1) ++ "\x7d").toList := by
      rw [String.toList_append]
      exact plain_append.2 ⟨Target.indent_plain _, by decide⟩
    rw [emitted_closing, hnone]
    split
    · simp
    · refine ⟨fun line hline => ?_, ?_⟩
      · rw [List.mem_singleton.1 hline]
        exact .plain hplain
      · rw [List.flatMap_singleton, quoted_plain hplain]
        rfl
  · rcases hacc.emitted hne with ⟨hl, hnone⟩ | ⟨first, rest, st', o, hl, hp, hcode⟩
    · simp [hnone, Quotation.ofLine, hl]
    · have hsound := Token.sound_of_ofLine hl
      have hquotes := hp.quotes hsound
      obtain ⟨hclosed, hquoted⟩ := quotes_indented st hquotes.closed
      have hliterals : (Quotation.ofLine text).map (·.emitted.toList) =
          ((first :: rest).flatMap (quoted ·.text.toList)).map (spacing first.kind) := by
        simp only [Quotation.ofLine, hl, Token.literals_eq hsound, List.map_map]
        refine List.map_congr_left fun cs _ => ?_
        simp only [Function.comp_apply, Quotation.emitted, String.toList_ofList]
      rw [hcode]
      exact ⟨hclosed, by rw [hquoted, hquotes.quoted, hliterals]⟩

theorem quotes_ofLines {st : State} {xs : List String}
    (hclean : Event.diagnostics (ofLines st xs).events = []) :
    (∀ line ∈ (ofLines st xs).emitted, Closed line.toList) ∧
      (ofLines st xs).emitted.flatMap (quoted ·.toList) =
        (xs.flatMap Quotation.ofLine).map (·.emitted.toList) := by
  induction xs generalizing st with
  | nil => simp [ofLines]
  | cons x xs ih =>
    rw [ofLines, Event.diagnostics_append, List.append_eq_nil_iff] at hclean
    obtain ⟨hclosed, hquoted⟩ := quotes_ofLine hclean.1
    obtain ⟨hcloseds, hquoteds⟩ := ih hclean.2
    rw [ofLines]
    refine ⟨fun line hline => ?_, ?_⟩
    · exact (List.mem_append.1 hline).elim (hclosed line) (hcloseds line)
    · dsimp only
      rw [List.flatMap_append, hquoted, hquoteds, List.flatMap_cons, List.map_append]

end Step

theorem Text.quotes_unlines {ls : List String} (h : ∀ line ∈ ls, Closed line.toList) :
    Closed (unlines ls).toList ∧
      quoted (unlines ls).toList = ls.flatMap (quoted ·.toList) := by
  induction ls with
  | nil => exact ⟨.plain plain_nil, rfl⟩
  | cons l ls ih =>
    obtain ⟨hl, hls⟩ := List.forall_mem_cons.1 h
    obtain ⟨hclosed, hquoted⟩ := ih hls
    have hfeed : Plain "\n".toList := by decide
    have hcons : (unlines (l :: ls)).toList = l.toList ++ ("\n".toList ++ (unlines ls).toList) := by
      simp [unlines, String.join_cons]
    rw [hcons]
    refine ⟨hl.append (.append (.plain hfeed) hclosed), ?_⟩
    rw [quoted_append hl, quoted_plain_append hfeed, hquoted, List.flatMap_cons]

/-- The literals of a program against which nothing is told are what its code quotes. The target
language reads one of them as a string with its text as the value, ending at its closing quote,
exactly when the literal is faithful; and it reads the strings of the code as the literals of the
program exactly when they all are. -/
theorem clean_body_strings {source : String} (hclean : (translate source).diagnostics = []) :
    let code := unlines (translate source).body
    let literals := Quotation.ofSource source
    quotations code = literals.map Quotation.emitted ∧
      (∀ q ∈ literals, ∀ rest n,
        Target.string? (q.emitted.toList ++ '"' :: rest) = some (q.value, n) ↔
          n = q.emitted.toList.length + 1 ∧ q.Faithful) ∧
      (Target.strings code = some (literals.map Quotation.value) ↔
        ∀ q ∈ literals, q.Faithful) := by
  intro code literals
  have hevents : Event.diagnostics (Step.ofLines { lines := solidLines (lines source) }
      (solidLines (lines source))).events = [] := by
    rw [translate, Run.ofLines, Run.diagnostics, Event.diagnostics_append,
      List.append_eq_nil_iff] at hclean
    exact hclean.1
  obtain ⟨hclosed, hquoted⟩ := Step.quotes_ofLines hevents
  obtain ⟨hcode, hsegments⟩ := quotes_unlines hclosed
  have hquotes : quoted code.toList = literals.map (·.emitted.toList) := hsegments.trans hquoted
  have hread : ∀ q ∈ literals, ∀ rest n,
      Target.string? (q.emitted.toList ++ '"' :: rest) = some (q.value, n) ↔
        n = q.emitted.toList.length + 1 ∧ q.Faithful := by
    intro q hq
    obtain ⟨line, -, hline⟩ := List.mem_flatMap.1 hq
    exact Quotation.string?_emitted (Quotation.plain_of_mem_ofLine hline)
  refine ⟨?_, hread, Target.stringsFrom_closed hcode hquotes hread⟩
  rw [quotations, hquotes, List.map_map]
  exact List.map_congr_left fun q _ => String.ofList_toList

/-- A printed literal is not spaced. -/
theorem clean_body_strings_printed :
    let source := "please define function void main() \x7b\nthank you for printing \"add5\"\n\x7d"
    (translate source).diagnostics = [] ∧ Quotation.ofSource source = [⟨.print, "add5"⟩] ∧
      (Target.strings (unlines (translate source).body) = some [Quotation.value ⟨.print, "add5"⟩] ↔
        ∀ q ∈ [Quotation.mk .print "add5"], q.Faithful) := by
  intro source
  obtain ⟨hclean, hliterals⟩ : (translate source).diagnostics = [] ∧
      Quotation.ofSource source = [⟨.print, "add5"⟩] := by decide +kernel
  obtain ⟨-, -, hstrings⟩ := clean_body_strings hclean
  rw [hliterals] at hstrings
  exact ⟨hclean, hliterals, hstrings⟩

/-- A literal that ends with a backslash is a string without an end. -/
theorem backslash_unterminated :
    let source := "please define function void main() \x7b\nthank you for printing \"C:\\\"\n\x7d"
    (translate source).diagnostics = [] ∧
      Quotation.ofSource source = [⟨.print, "C:\\"⟩] ∧
      Target.strings (unlines (translate source).body) = none := by
  decide +kernel

end Courtesy
