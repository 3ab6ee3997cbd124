import Courtesy.Project.Scaffold
import Courtesy.Proofs.Locations
import Courtesy.Proofs.Paths
import Courtesy.Proofs.Relayout
import Courtesy.Proofs.Requoting
import Courtesy.Proofs.Saving
import Courtesy.Proofs.Variables
import Courtesy.Proofs.Verdict

/-!
# Generated text translates

Scaffolds write source text around a name. This file follows that text through the translator, for
every name that is let through.

* `Scaffold.tokenize_head`: the header of a generated function is cut into its six tokens; in
  particular no phrase takes the name in, since a parenthesis stands right behind it.
* `tokenize_append_literal`: a string literal behind plain words is one token, whatever it says.
* `Step.toldFrom`: what is still told from a line on. An accepted line tells nothing
  (`Step.toldFrom_cons`), and at the brace that closes the only function no more than a missing
  entry point is told (`Scaffold.Inside.toldFrom_closing`).
* `Scaffold.diagnostics_functionText`, `Scaffold.diagnostics_programText`: the diagnostics of the
  two generated texts.
* `Scaffold.generated_translate`: the same of what is written to a disk.
-/

namespace Courtesy

open Text Statement
open List (Forall₂)

/-! ## The lines of a generated text -/

theorem Text.lines_unlines {ls : List String} (h : ∀ line ∈ ls, '\n' ∉ line.toList) :
    lines (unlines ls) = ls ++ [""] := by
  induction ls with
  | nil => rfl
  | cons l ls ih =>
    have hl : split (· == '\n') l.toList = [l.toList] := split_uncut fun c hc => by
      rw [beq_eq_false_iff_ne]
      rintro rfl
      exact h l List.mem_cons_self hc
    rw [lines, toList_unlines_cons, split_append_cut rfl, hl, List.map_append, List.map_singleton,
      String.ofList_toList]
    exact congrArg (l :: ·) (ih fun line hline => h line (List.mem_cons_of_mem l hline))

/-- A text that starts and ends with something solid is as it is when trimmed. -/
theorem Text.trim_solid {s : String} {a b : Char} {cs : List Char}
    (hs : s.toList = a :: (cs ++ [b])) (ha : isBlank a = false) (hb : isBlank b = false) :
    trim s = s := by
  have hfront : s.toList.dropWhile isBlank = s.toList := by
    rw [hs, List.dropWhile_cons_of_neg (by simp [ha])]
  have hback : s.toList.reverse.dropWhile isBlank = s.toList.reverse := by
    rw [hs, ← List.cons_append, List.reverse_concat, List.dropWhile_cons_of_neg (by simp [hb])]
  rw [trim, trimBy, hfront, hback, List.reverse_reverse, String.ofList_toList]

theorem Text.trim_indented {s : String} (h : trim s = s) : trim ("    " ++ s) = s := by
  have hgap : trimBy isBlank ("    ".toList ++ (s.toList ++ [])) = trimBy isBlank s.toList :=
    trimBy_append (List.all_eq_true.1 rfl) (by simp) s.toList
  rw [List.append_nil] at hgap
  rw [trim, String.toList_append, hgap]
  exact h

/-- A line that is read as it stands. -/
structure Text.Neat (line : String) : Prop where
  oneLine : '\n' ∉ line.toList
  trimmed : trim line = line
  solid : line ≠ ""

/-- A text of neat lines, some of them indented, is read as these lines. -/
theorem Text.solidLines_unlines {ws ls : List String}
    (h : Forall₂ (fun w l => Neat l ∧ (w = l ∨ w = "    " ++ l)) ws ls) :
    solidLines (lines (unlines ws)) = ls := by
  have hlines : ∀ w ∈ ws, '\n' ∉ w.toList := by
    intro w hw
    induction h with
    | nil => cases hw
    | @cons w' l ws ls hwritten _ ih =>
      rcases List.mem_cons.1 hw with rfl | hw
      · obtain ⟨hneat, rfl | rfl⟩ := hwritten
        · exact hneat.oneLine
        · simpa using hneat.oneLine
      · exact ih hw
  rw [lines_unlines hlines]
  clear hlines
  induction h with
  | nil => decide
  | @cons w l ws ls hwritten _ ih =>
    obtain ⟨hneat, hw⟩ := hwritten
    have htrim : trim w = l := by
      rcases hw with rfl | rfl
      · exact hneat.trimmed
      · exact trim_indented hneat.trimmed
    rw [List.cons_append, solidLines_cons, htrim, if_neg hneat.solid, ih]

/-! ## Tokens -/

/-- A line reads as its tokens if each of them belongs to a kind. -/
theorem Line.reads_of_tokenize {line : String} {words : List String} (htrim : trim line = line)
    (hwords : tokenize line = words) (hvalid : ∀ word ∈ words, classify word ≠ .invalid) :
    Line.Reads words line := by
  have hall : ∀ ls : List Lexeme, (∀ l ∈ ls, classify l.text ≠ .invalid) →
      ls.mapM Token.ofLexeme = .ok (ls.map fun l => ⟨l.text, classify l.text, l.column⟩) := by
    intro ls
    induction ls with
    | nil => exact fun _ => rfl
    | cons l ls ih =>
      intro h
      obtain ⟨hl, hls⟩ := List.forall_mem_cons.1 h
      rw [List.mapM_cons, Token.ofLexeme, if_neg hl, ih hls]
      rfl
  have hlexemes : ∀ l ∈ Lexeme.scan line, classify l.text ≠ .invalid := fun l hl =>
    hvalid _ (hwords ▸ List.mem_map_of_mem hl)
  have hline : Token.ofLine line = (Lexeme.scan line).mapM Token.ofLexeme := by
    rw [Token.ofLine, htrim]
  refine ⟨_, hline.trans (hall _ hlexemes), ?_⟩
  rw [Token.texts, List.map_map, ← hwords]
  rfl

theorem tokenize_append_literal {lead : String} (hlead : Plain lead.toList) {body : List Char}
    (hb : Plain body) :
    tokenize (lead ++ Literal.ofContent body) = tokenize lead ++ [Literal.ofContent body] := by
  obtain ⟨ps, hps⟩ := Lexeme.exists_scans lead.toList
  have hscans := hps.append_quote hlead (Lexeme.Scans.literal hb .nil)
  have hline : (lead ++ Literal.ofContent body).toList = lead.toList ++ '"' :: (body ++ ['"']) := by
    rw [String.toList_append, Literal.toList_ofContent]
  rw [tokenize, tokenize, Lexeme.scan, Lexeme.scan, hline, hscans.texts, hps.texts, List.map_append]
  refine congrArg (ps.map Lexeme.normalise ++ [·]) ?_
  rw [← String.toList_inj, Lexeme.normalise_quote, Literal.toList_ofContent]

namespace Scaffold

/-- The first line of a generated function. -/
def head (type : ValueType) (name : String) : String :=
  s!"please define function {type.name} {name}() \x7b"

section head

open Lexeme

variable {type : ValueType} {name : String} {rest : List Char} {ps : List (List Char)}

theorem solid_of_head {c : Char} {p : List Char} (hp : p.head? = some c) (hc : isGap c = false) :
    ∀ d ∈ p.head?, isGap d = false := by
  intro d hd
  cases hp.symm.trans hd
  exact hc

theorem scans_define (h : Scans rest ps) :
    Scans ("please define function".toList ++ ' ' :: rest)
      ("please define function".toList :: ps) := by
  have hlength : lexemeLength? ("please define function".toList ++ ' ' :: rest) = some 22 := by rfl
  exact .piece (solid_of_head rfl rfl) (hlength.trans (by decide)) (.gap rfl h)

theorem scans_type (htype : type ≠ .invalid) (h : Scans rest ps) :
    Scans (type.name.toList ++ ' ' :: rest) (type.name.toList :: ps) := by
  cases type with
  | invalid => exact absurd rfl htype
  | _ => exact .piece (solid_of_head rfl rfl) rfl (.gap rfl h)

theorem scans_name (hname : Literal.isIdentifier name = true) :
    Scans (name.toList ++ ['(', ')', ' ', '{']) [name.toList, ['('], [')'], ['{']] := by
  obtain ⟨c, cs, hchars, hc, hcs⟩ := Literal.chars_of_isIdentifier hname
  have hword : IsWord (c :: cs) :=
    ⟨by simp, List.forall_mem_cons.2 ⟨isWordChar_of_isWordStart hc, hcs⟩⟩
  have hmarks : Scans ['(', ')', ' ', '{'] [['('], [')'], ['{']] :=
    .piece (p := ['(']) (solid_of_head rfl rfl) rfl <|
      .piece (p := [')']) (solid_of_head rfl rfl) rfl <| .gap rfl <|
        @Scans.piece ['{'] [] [] (solid_of_head rfl rfl) rfl .nil
  -- a phrase has a second word, but behind the name there is a parenthesis
  have hphrase : anyPhraseLength? (c :: cs ++ ['(', ')', ' ', '{']) = none := by
    cases hlength : anyPhraseLength? (c :: cs ++ ['(', ')', ' ', '{']) with
    | none => rfl
    | some n =>
      obtain ⟨ws, hws, p, rest, heq, -, hspells, hrest⟩ := anyPhraseLength?_some hlength
      have hrun := wordRun_spells hspells hrest
      rw [← heq, wordRun_word hword rfl] at hrun
      have hlong : ∀ ws ∈ phrases, 2 ≤ ws.length := by decide
      have hlen := congrArg List.length hrun
      have hmarks : wordRun ['(', ')', ' ', '{'] = [] := rfl
      rw [hmarks, List.length_append, List.length_singleton] at hlen
      have := hlong ws hws
      omega
  have hgap : isGap c = false := isGap_of_isWordChar (isWordChar_of_isWordStart hc)
  rw [hchars]
  refine .piece (solid_of_head rfl hgap) ?_ hmarks
  rw [lexemeLength?_eq, hphrase, List.cons_append, ordinaryLength?_word _ hc,
    takeWhile_word hcs rfl]
  rfl

theorem toList_head (type : ValueType) (name : String) :
    (head type name).toList = "please define function".toList ++
      ' ' :: (type.name.toList ++ ' ' :: (name.toList ++ ['(', ')', ' ', '{'])) := by
  have hlead : "please define function ".toList = "please define function".toList ++ [' '] := by
    decide
  revert hlead
  unfold head
  -- the literals are put out of sight, since they are slow to compare
  generalize "please define function " = lead
  generalize "please define function".toList = words
  intro hlead
  have hplain (s : String) : toString s = s := rfl
  simp [hplain, hlead]

theorem tokenize_head (htype : type ≠ .invalid) (hname : Literal.isIdentifier name = true) :
    tokenize (head type name) =
      ["please define function", type.name, name, "(", ")", "\x7b"] := by
  have hscans := scans_define (scans_type htype (scans_name hname))
  have hnormal : normalise "please define function".toList = "please define function" := by
    decide
  have hsolid : ∀ d ∈ name.toList, isStop d = false := fun d hd =>
    isStop_of_isWordChar (Literal.isWordChar_of_isIdentifier hname d hd)
  have hwords : normalise type.name.toList = type.name := by cases type <;> rfl
  rw [tokenize, Lexeme.scan, toList_head, hscans.texts]
  simp only [List.map_cons, List.map_nil]
  rw [normalise_solid hsolid, String.ofList_toList, hnormal, hwords]
  rfl

end head

end Scaffold

/-! ## A line that is carried out -/

namespace Step

variable {st st' : State} {text : String} {first : Token} {rest : List Token} {o : Opening}

theorem ofLine_carried (hne : text ≠ "\x7d") (hl : Token.ofLine text = .ok (first :: rest))
    (h : Statement.perform (marked st text) first.kind (first :: rest) = some ⟨st', .ok o⟩) :
    Accepts st text ∧ (ofLine st text).state =
      { (if opens (tokenize text) then st'.openBlock o.vars else st') with
        line := (if opens (tokenize text) then st'.openBlock o.vars else st').line + 1 } := by
  rw [Accepts, ofLine_statement hne]
  simp only [perform, hl, h]
  exact ⟨rfl, trivial⟩

/-- A statement without a block leaves what it led to, with the next line number. -/
theorem ofLine_flat (htrim : trim text = text) (hl : Token.ofLine text = .ok (first :: rest))
    (hflat : "\x7b" ∉ Token.texts (first :: rest))
    (h : Statement.perform st first.kind (first :: rest) = some ⟨st', .ok o⟩) :
    Accepts st text ∧ (ofLine st text).state = { st' with line := st'.line + 1 } := by
  have hopens : opens (tokenize text) = false := by
    rw [opens_eq, ← Token.texts_ofLine htrim hl, decide_eq_false hflat]
  have hmarked : marked st text = st := by
    rw [marked, hopens, Bool.false_and, if_neg Bool.false_ne_true]
  have hne : text ≠ "\x7d" := by
    rintro rfl
    rw [Token.ofLine_closeBrace] at hl
    cases hl
    cases h
  have hcarried := ofLine_carried hne hl (hmarked.symm ▸ h)
  rwa [hopens] at hcarried

theorem marked_of_lead {lead : String} {words : List String}
    (hwords : tokenize text = lead :: words) (hcheck : classify lead ≠ .check)
    (hloop : classify lead ≠ .loop) : marked st text = st := by
  have hcontrol : isControl (tokenize text) = false := by simp [hwords, isControl, hcheck, hloop]
  rw [marked, hcontrol, Bool.and_false, if_neg Bool.false_ne_true]

/-- The diagnostics of the lines that are still to be read and of the end. -/
def toldFrom (st : State) (texts : List String) : List Diagnostic :=
  Event.diagnostics ((ofLines st texts).events ++ closingEvents (ofLines st texts).state)

theorem toldFrom_cons (hacc : Accepts st text) (texts : List String) :
    toldFrom st (text :: texts) = toldFrom (ofLine st text).state texts := by
  have hnone : Event.diagnostics (ofLine st text).events = [] := hacc
  rw [toldFrom, ofLines, Event.diagnostics_append, Event.diagnostics_append, hnone,
    List.nil_append, toldFrom, Event.diagnostics_append]

theorem toldFrom_nil : toldFrom st [] = Event.diagnostics (closingEvents st) := rfl

end Step

namespace Scaffold

open Step

/-- The only function of a program is being read, and no block is open but its own. -/
structure Inside (st : State) (f : Signature) : Prop where
  blocks : ∃ number, st.blocks = [number]
  indent : st.indent = 1
  function : st.function = some f.name
  functions : st.scope.functions = [f]
  malformed : st.malformed = []
  insideControl : st.insideControl = false

variable {st : State} {f : Signature} {type : ValueType} {name : String}

theorem Inside.over (h : Inside st f) (line : Nat) {scope : Scope}
    (hscope : scope.functions = st.scope.functions) :
    Inside { st with line := line, scope := scope } f :=
  ⟨h.blocks, h.indent, h.function, hscope.trans h.functions, h.malformed, h.insideControl⟩

/-- The state in which a first function without parameters has been declared. -/
def declared (ls : List String) (f : Signature) : State where
  lines := ls
  function := some f.name
  settled := setMember f.name (f.result = .void) []
  scope := ⟨[[]], [f]⟩

/-- The state behind the header of such a function. -/
def entered (ls : List String) (f : Signature) : State :=
  { (declared ls f).openBlock [] with line := 1 }

theorem inside_entered (ls : List String) (f : Signature) : Inside (entered ls f) f :=
  ⟨⟨1, rfl⟩, rfl, rfl, rfl, rfl, rfl⟩

theorem isFunctionName_iff {name : String} :
    isFunctionName name = true ↔ Literal.isIdentifier name = true ∧
      classify name = .identifier := by
  rw [isFunctionName, Bool.and_eq_true, beq_iff_eq]

theorem classify_name (htype : type ≠ .invalid) : classify type.name = .typeName := by
  cases type with
  | invalid => exact absurd rfl htype
  | _ => rfl

theorem name_clean (hname : Literal.isIdentifier name = true) :
    Plain name.toList ∧ '\n' ∉ name.toList := by
  have hword := Literal.isWordChar_of_isIdentifier hname
  exact ⟨fun hm => absurd (hword _ hm) (by decide), fun hm => absurd (hword _ hm) (by decide)⟩

theorem exists_toList_head (type : ValueType) (name : String) :
    ∃ cs, (head type name).toList = 'p' :: (cs ++ ['{']) := by
  have hlead : "please define function".toList = 'p' :: "lease define function".toList := by
    decide
  refine ⟨"lease define function".toList ++
    ' ' :: (type.name.toList ++ ' ' :: (name.toList ++ ['(', ')', ' '])), ?_⟩
  rw [toList_head, hlead]
  simp only [List.cons_append, List.append_assoc, List.nil_append]

theorem trim_head (type : ValueType) (name : String) : trim (head type name) = head type name := by
  obtain ⟨cs, hcs⟩ := exists_toList_head type name
  exact trim_solid hcs rfl rfl

theorem neat_head (type : ValueType) (hname : Literal.isIdentifier name = true) :
    Neat (head type name) where
  oneLine := by
    have hlead : '\n' ∉ "please define function".toList := by decide
    have htype : '\n' ∉ type.name.toList := by cases type <;> decide
    rw [toList_head]
    simp only [List.mem_append, List.mem_cons, hlead, htype, (name_clean hname).2]
    decide
  trimmed := trim_head type name
  solid := by
    obtain ⟨cs, hcs⟩ := exists_toList_head type name
    rintro h
    rw [h] at hcs
    cases hcs

theorem definition_first {tokens : List Token}
    (hheader : functionHeader tokens = .ok ⟨name, type, []⟩) (ls : List String) :
    definition { lines := ls } tokens =
      (declared ls ⟨name, type, []⟩, .ok { code := headed (methodHead ⟨name, type, []⟩) }) := by
  have hnew : ¬ Scope.isFunction {} name = true := Bool.false_ne_true
  have hmain : ¬ (name = "main" ∧ ([] : List Param) ≠ []) := fun h => h.2 rfl
  unfold definition
  rw [hheader]
  exact (if_neg hnew).trans (if_neg hmain)

theorem ofLine_head (htype : type ≠ .invalid) (hname : isFunctionName name = true)
    (ls : List String) :
    Accepts { lines := ls } (head type name) ∧
      (ofLine { lines := ls } (head type name)).state = entered ls ⟨name, type, []⟩ := by
  obtain ⟨hidentifier, hkind⟩ := isFunctionName_iff.1 hname
  have hwords := tokenize_head htype hidentifier
  have hreads : Line.Reads _ (head type name) :=
    Line.reads_of_tokenize (trim_head type name) hwords (by
      simp only [List.forall_mem_cons, hkind, classify_name htype]
      decide)
  obtain ⟨tokens, hl, htexts⟩ := hreads
  have hne : head type name ≠ "\x7d" := by
    intro h
    obtain ⟨cs, hcs⟩ := exists_toList_head type name
    rw [h] at hcs
    exact absurd (List.cons.inj hcs).1 (by decide)
  simp only [Token.texts, List.map_eq_cons_iff, List.map_eq_nil_iff] at htexts
  obtain ⟨lead, _, rfl, hlead, result, _, rfl, hresult, nameToken, _, rfl, hnameToken, paren, _,
    rfl, hparen, close, _, rfl, hclose, brace, _, rfl, hbrace, rfl⟩ := htexts
  have kind : ∀ t ∈ [lead, result, nameToken, paren, close, brace], t.kind = classify t.text :=
    fun t ht => (Token.valid_of_ofLine hl t ht).1
  simp only [List.forall_mem_cons, hlead, hresult, hnameToken, hparen, hclose, hbrace] at kind
  obtain ⟨klead, kresult, kname, kparen, kclose, kbrace, -⟩ := kind
  rw [classify_name htype] at kresult
  rw [hkind] at kname
  have hheader : functionHeader [lead, result, nameToken, paren, close, brace] =
      .ok ⟨name, type, []⟩ := by
    rw [functionHeader_iff]
    exact ⟨lead, result, nameToken, paren, close, brace, rfl, kresult, kname, kparen, kclose,
      kbrace, hnameToken.symm, by rw [hresult, ValueType.ofName?_name htype]; rfl⟩
  have hmarked : marked { lines := ls } (head type name) = { lines := ls } :=
    marked_of_lead hwords (by decide) (by decide)
  have hdefine : lead.kind = .define := klead.trans (by decide)
  have hperform : Statement.perform { lines := ls } lead.kind
      [lead, result, nameToken, paren, close, brace] =
      some ⟨declared ls ⟨name, type, []⟩,
        .ok { code := headed (methodHead ⟨name, type, []⟩) }⟩ := by
    rw [hdefine, Statement.perform, definition_first hheader]
  rw [← hmarked] at hperform
  have hopens : opens (tokenize (head type name)) = true := by
    rw [hwords, opens_eq]
    simp
  obtain ⟨hacc, hstate⟩ := ofLine_carried hne hl hperform
  refine ⟨hacc, ?_⟩
  rw [hstate, hopens]
  rfl

theorem Inside.closing (h : Inside st f) (hsettled : f.result = .void ∨ f.name ∈ st.settled) :
    Accepts st "\x7d" ∧ (ofLine st "\x7d").state.blocks = [] ∧
      (ofLine st "\x7d").state.scope.functions = [f] ∧ (ofLine st "\x7d").state.malformed = [] := by
  obtain ⟨number, hblocks⟩ := h.blocks
  rw [Accepts, ofLine_closing_cons hblocks]
  refine ⟨?_, rfl, h.functions, h.malformed⟩
  have hfind : st.scope.pop.function? f.name = some f := by
    rw [Scope.function?, Scope.functions_pop, h.functions]
    simp
  have hreturns : ¬ (f.result ≠ .void ∧ f.name ∉ st.settled) := by
    rintro ⟨hvoid, hname⟩
    exact hsettled.elim hvoid hname
  simp only [h.indent, missingReturn, h.function, hfind, if_neg hreturns]
  rfl

/-- What is told from the closing brace on: at most that there is no entry point. -/
theorem Inside.toldFrom_closing (h : Inside st f)
    (hsettled : f.result = .void ∨ f.name ∈ st.settled) :
    toldFrom st ["\x7d"] = if f.name = "main" ∧ f.result = .void ∧ f.params = [] then []
      else [Diagnostic.noEntryPoint] := by
  obtain ⟨hacc, hblocks, hfunctions, hmalformed⟩ := h.closing hsettled
  have hentry : (ofLine st "\x7d").state.hasEntryPoint = true ↔
      f.name = "main" ∧ f.result = .void ∧ f.params = [] := by
    rw [State.hasEntryPoint_iff, Scope.function?, hfunctions, hmalformed]
    by_cases hname : f.name = "main"
    · simp [hname]
    · simp [hname]
  rw [toldFrom_cons hacc, toldFrom_nil, diagnostics_closingEvents, hblocks,
    if_congr hentry rfl rfl]
  rfl

/-! ## The lines of a body -/

section literal

variable {lead : String} {body : List Char}

theorem trim_append_literal {c : Char} {cs : List Char} (hlead : lead.toList = c :: cs)
    (hc : isBlank c = false) :
    trim (lead ++ Literal.ofContent body) = lead ++ Literal.ofContent body := by
  have hline : (lead ++ Literal.ofContent body).toList = c :: ((cs ++ '"' :: body) ++ ['"']) := by
    rw [String.toList_append, hlead, Literal.toList_ofContent]
    simp
  exact trim_solid hline hc rfl

/-- A line that ends with a string literal reads as the words in front and the literal. -/
theorem reads_append_literal (words : List String) (htrim : trim (lead ++ Literal.ofContent body) =
      lead ++ Literal.ofContent body) (hlead : Plain lead.toList) (hwords : tokenize lead = words)
    (hvalid : ∀ word ∈ words, classify word ≠ .invalid) (hplain : Plain body)
    (hline : '\n' ∉ body) :
    Line.Reads (words ++ [Literal.ofContent body]) (lead ++ Literal.ofContent body) := by
  refine Line.reads_of_tokenize htrim ?_ ?_
  · rw [tokenize_append_literal hlead hplain, hwords]
  · refine List.forall_mem_append.2 ⟨hvalid, List.forall_mem_singleton.2 ?_⟩
    rw [Literal.classify_ofContent hline]
    decide

end literal

theorem toList_printing :
    "thank you for printing ".toList = 't' :: "hank you for printing ".toList := by
  rw [String.toList_ofList, String.toList_ofList]

theorem toList_creating : "please create text greeting equals ".toList =
    'p' :: "lease create text greeting equals ".toList := by
  rw [String.toList_ofList, String.toList_ofList]

theorem opening_ne_ofContent (body : List Char) : "\x7b" ≠ Literal.ofContent body :=
  (Literal.ofContent_ne body (by decide)).symm

theorem printed_literal {body : List Char} (hplain : Plain body) (hline : '\n' ∉ body)
    (st : State) :
    Accepts st ("thank you for printing " ++ Literal.ofContent body) ∧
      (ofLine st ("thank you for printing " ++ Literal.ofContent body)).state =
        { st with line := st.line + 1 } := by
  have htrim : trim ("thank you for printing " ++ Literal.ofContent body) = _ :=
    trim_append_literal toList_printing rfl
  obtain ⟨tokens, hl, htexts⟩ := reads_append_literal ["thank you for printing"] htrim
    (by decide) (by decide) (by decide) hplain hline
  have htexts' := htexts
  simp only [Token.texts, List.singleton_append, List.map_eq_cons_iff,
    List.map_eq_nil_iff] at htexts
  obtain ⟨first, _, rfl, hfirst, t, _, rfl, ht, rfl⟩ := htexts
  have hkinds := Token.valid_of_ofLine hl
  simp only [List.forall_mem_cons, Token.Valid, hfirst, ht, Literal.classify_ofContent hline]
    at hkinds
  obtain ⟨⟨hlead, -⟩, ⟨hstring, -⟩, -⟩ := hkinds
  have hprint : first.kind = .print := hlead.trans (by decide)
  have hperform : Statement.perform st first.kind [first, t] =
      some ⟨st, .ok { code := ["Console.WriteLine(" ++ spaced [t.text] ++ ");"] }⟩ := by
    rw [hprint]
    simp only [Statement.perform, printStatement, printedValues, printable, hstring]
    rfl
  refine ofLine_flat htrim hl ?_ hperform
  rw [htexts', List.singleton_append, List.mem_pair]
  exact not_or.2 ⟨by decide, opening_ne_ofContent body⟩

theorem printed_variable (hdeclared : st.scope.isDeclared "greeting" = true) :
    Accepts st "thank you for printing greeting" ∧
      (ofLine st "thank you for printing greeting").state = { st with line := st.line + 1 } := by
  have hl : Token.ofLine "thank you for printing greeting" =
      .ok [⟨"thank you for printing", .print, 1⟩, ⟨"greeting", .identifier, 24⟩] := by
    decide +kernel
  have harith : Vocabulary.isArithmetic "greeting" = false := rfl
  have hperform : Statement.perform st .print
      [⟨"thank you for printing", .print, 1⟩, ⟨"greeting", .identifier, 24⟩] =
      some ⟨st, .ok { code := ["Console.WriteLine(" ++ spaced ["greeting"] ++ ");"] }⟩ := by
    simp only [Statement.perform, printStatement, printedValues, printable, harith, hdeclared]
    rfl
  exact ofLine_flat (by decide +kernel) hl (by decide) hperform

theorem valueOrCall_of_check {scope : Scope} {place : Statement.Place} {receiver : Receiver}
    {expected : ValueType} {t : Token} {e : Expression} (hkind : t.kind ≠ .call)
    (h : Expression.check scope.visible t.text expected = .ok e) :
    ∃ code, valueOrCall scope place receiver expected t [] = .ok code := by
  rw [valueOrCall, if_neg hkind, Token.join_singleton, value, h]
  exact ⟨_, rfl⟩

/-- A value is returned from a function that is not void, outside of all control blocks. -/
theorem Inside.returnStatement_value (h : Inside st f) (hvoid : f.result ≠ .void)
    (lead : Token) {first : Token} {rest : List Token} {code : String}
    (hcode : valueOrCall st.scope .returned .caller f.result first rest = .ok code) :
    returnStatement st (lead :: first :: rest) =
      .ok ({ st with settled := setMember f.name true st.settled }, "return " ++ code ++ ";") := by
  have hfind : st.scope.function? f.name = some f := by
    rw [Scope.function?, h.functions]
    simp
  unfold returnStatement
  simp only [h.function, hfind, h.insideControl, List.drop_one, List.tail_cons]
  cases hresult : f.result with
  | void => exact absurd hresult hvoid
  | _ => exact except_bind_ok.2 ⟨code, hresult ▸ hcode, rfl⟩

section zero

variable (hvalue : Expression.isValueType type = true)
include hvalue

theorem line_zero : trim ("thank you for returning " ++ zeroLiteral type) =
      "thank you for returning " ++ zeroLiteral type ∧
    Token.ofLine ("thank you for returning " ++ zeroLiteral type) =
      .ok [⟨"thank you for returning", .giveBack, 1⟩,
        ⟨zeroLiteral type, classify (zeroLiteral type), 25⟩] := by
  have hall : ∀ type ∈ ValueType.declared, Expression.isValueType type = true →
      trim ("thank you for returning " ++ zeroLiteral type) =
        "thank you for returning " ++ zeroLiteral type ∧
      Token.ofLine ("thank you for returning " ++ zeroLiteral type) =
        .ok [⟨"thank you for returning", .giveBack, 1⟩,
          ⟨zeroLiteral type, classify (zeroLiteral type), 25⟩] := by
    decide +kernel
  exact hall type (by cases type <;> first | decide | cases hvalue) hvalue

theorem valueOrCall_zero {scope : Scope} (hvisible : scope.visible = []) (column : Nat) :
    ∃ code, valueOrCall scope .returned .caller type
      ⟨zeroLiteral type, classify (zeroLiteral type), column⟩ [] = .ok code := by
  have hcheck : (Expression.check [] (zeroLiteral type) type).isOk = true := by
    cases type with
    | void => cases hvalue
    | invalid => cases hvalue
    | _ => decide +kernel
  have hcall : classify (zeroLiteral type) ≠ .call := by
    cases type with
    | void => cases hvalue
    | invalid => cases hvalue
    | _ => decide
  cases hcheck' : Expression.check [] (zeroLiteral type) type with
  | error fault =>
    rw [hcheck'] at hcheck
    cases hcheck
  | ok e =>
    exact valueOrCall_of_check hcall (hvisible ▸ hcheck')

theorem returned_zero (name : String) (ls : List String) :
    Accepts (entered ls ⟨name, type, []⟩) ("thank you for returning " ++ zeroLiteral type) ∧
      (ofLine (entered ls ⟨name, type, []⟩)
          ("thank you for returning " ++ zeroLiteral type)).state =
        { entered ls ⟨name, type, []⟩ with
          line := 2
          settled := setMember name true (entered ls ⟨name, type, []⟩).settled } := by
  have hvoid : type ≠ .void := by
    rintro rfl
    cases hvalue
  have hflat : "\x7b" ∉ Token.texts [⟨"thank you for returning", .giveBack, 1⟩,
      ⟨zeroLiteral type, classify (zeroLiteral type), 25⟩] := by
    cases type with
    | _ => decide
  have hvisible : (entered ls ⟨name, type, []⟩).scope.visible = [] := rfl
  obtain ⟨code, hcode⟩ := valueOrCall_zero hvalue hvisible 25
  have hreturn := (inside_entered ls ⟨name, type, []⟩).returnStatement_value hvoid
    ⟨"thank you for returning", .giveBack, 1⟩ hcode
  have hperform : Statement.perform (entered ls ⟨name, type, []⟩) .giveBack
      [⟨"thank you for returning", .giveBack, 1⟩,
        ⟨zeroLiteral type, classify (zeroLiteral type), 25⟩] =
      some ⟨{ entered ls ⟨name, type, []⟩ with
          settled := setMember name true (entered ls ⟨name, type, []⟩).settled },
        .ok { code := ["return " ++ code ++ ";"] }⟩ := by
    rw [Statement.perform, hreturn]
  exact ofLine_flat (line_zero hvalue).1 (line_zero hvalue).2 hflat hperform

end zero

end Scaffold

namespace Expression

theorem cut_ofContent {body : List Char} (hplain : Plain body) :
    cut (Literal.ofContent body) = [Literal.ofContent (respace false body)] := by
  have hrespace := respace_literal false [] body []
  rw [List.nil_append] at hrespace
  rw [cut, Literal.toList_ofContent, hrespace]
  show List.map _ (atomsFrom 0 ('"' :: (respace false body ++ ['"']))) = _
  rw [atomsFrom_literal (plain_respace hplain false)]
  rfl

/-- A string literal is an expression of the text type. -/
theorem check_ofContent {body : List Char} (hplain : Plain body) (hline : '\n' ∉ body)
    (vars : Variables) :
    check vars (Literal.ofContent body) .text =
      .ok ⟨[Literal.ofContent (respace false body)], false⟩ := by
  have hline' : '\n' ∉ respace false body := fun hm =>
    hline ((mem_respace (by decide) false body).1 hm)
  have hsub : (Literal.ofContent (respace false body) == "sub") = false :=
    beq_eq_false_iff_ne.2 (Literal.ofContent_ne _ (by decide))
  have hgate : gate vars .text none 0 [Literal.ofContent (respace false body)] =
      .ok ([⟨.string, Literal.ofContent (respace false body)⟩], false) := by
    rw [gate, hsub, Bool.false_and, if_neg Bool.false_ne_true, Literal.role?_ofContent hline']
    rfl
  unfold check
  rw [cut_ofContent hplain]
  exact except_bind_ok.2 ⟨_, hgate, rfl⟩

end Expression

namespace Scaffold

open Step

variable {st : State}

/-- A variable of a new name can be declared with a value of its type. -/
theorem declaration_initial {scope : Scope} {type : ValueType} {code : String}
    (lead : Token) {typeToken nameToken eq first : Token} {rest : List Token}
    (ktype : typeToken.kind = .typeName) (htype : ValueType.ofName? typeToken.text = some type)
    (hvoid : type ≠ .void) (kname : nameToken.kind = .identifier) (keq : eq.kind = .equals)
    (hnew : scope.isDeclared nameToken.text = false)
    (hfunction : scope.isFunction nameToken.text = false)
    (hcode : valueOrCall scope .initialValue (.place nameToken.text) type first rest = .ok code) :
    ∃ line, declaration scope (lead :: typeToken :: nameToken :: eq :: first :: rest) =
      .ok (scope.declare nameToken.text type, line) := by
  have hinitial :
      initialValue scope nameToken.text type (eq :: first :: rest) = .ok (some code) := by
    rw [initialValue, if_neg (not_not.2 keq)]
    exact except_bind_ok.2 ⟨code, hcode, rfl⟩
  rw [declaration, if_neg (not_not.2 ktype), if_neg (not_not.2 kname), htype, Option.getD_some,
    if_neg hvoid, hnew, hfunction, if_neg Bool.false_ne_true, if_neg Bool.false_ne_true]
  exact ⟨_, except_bind_ok.2 ⟨_, hinitial, rfl⟩⟩

theorem created_greeting (st : State) {body : List Char} (hplain : Plain body) (hline : '\n' ∉ body)
    (hnew : st.scope.isDeclared "greeting" = false)
    (hfunction : st.scope.isFunction "greeting" = false) :
    Accepts st ("please create text greeting equals " ++ Literal.ofContent body) ∧
      (ofLine st ("please create text greeting equals " ++ Literal.ofContent body)).state =
        { st with line := st.line + 1, scope := st.scope.declare "greeting" .text } := by
  have htrim : trim ("please create text greeting equals " ++ Literal.ofContent body) = _ :=
    trim_append_literal toList_creating rfl
  obtain ⟨tokens, hl, htexts⟩ :=
    reads_append_literal ["please create", "text", "greeting", "equals"] htrim
    (by decide +kernel) (by decide +kernel) (by decide +kernel) hplain hline
  have hflat : "\x7b" ∉ Token.texts tokens := by
    rw [htexts, List.mem_append, List.mem_singleton]
    exact not_or.2 ⟨by decide, opening_ne_ofContent body⟩
  simp only [Token.texts, List.cons_append, List.nil_append, List.map_eq_cons_iff,
    List.map_eq_nil_iff] at htexts
  obtain ⟨first, _, rfl, hfirst, type, _, rfl, htype, name, _, rfl, hname, eq, _, rfl, heq, t, _,
    rfl, ht, rfl⟩ := htexts
  have hkinds := Token.valid_of_ofLine hl
  simp only [List.forall_mem_cons, Token.Valid, hfirst, htype, hname, heq, ht,
    Literal.classify_ofContent hline] at hkinds
  obtain ⟨⟨kfirst, -⟩, ⟨ktype, -⟩, ⟨kname, -⟩, ⟨keq, -⟩, ⟨kstring, -⟩, -⟩ := hkinds
  obtain ⟨code, hcode⟩ : ∃ code,
      valueOrCall st.scope .initialValue (.place name.text) .text t [] = .ok code :=
    valueOrCall_of_check (by rw [kstring]; decide)
      (by rw [ht, Expression.check_ofContent hplain hline])
  rw [← hname] at hnew hfunction ⊢
  obtain ⟨line, hdeclaration⟩ := declaration_initial first ktype (htype ▸ rfl)
    (by decide) kname keq hnew hfunction hcode
  have hperform : Statement.perform st first.kind [first, type, name, eq, t] =
      some ⟨{ st with scope := st.scope.declare name.text .text }, .ok { code := [line] }⟩ := by
    rw [kfirst]
    show some _ = _
    rw [hdeclaration]
  exact ofLine_flat htrim hl hflat hperform

/-! ## Whole texts -/

/-- An indented line that ends with a string literal around a name. -/
theorem indented_literal {front back lead : String} (left : List Char) {right : List Char}
    (hfront : front.toList = "    ".toList ++ (lead.toList ++ '"' :: left))
    (hback : back.toList = right ++ ['"']) (name : String) :
    front ++ name ++ back =
      "    " ++ (lead ++ Literal.ofContent (left ++ (name.toList ++ right))) := by
  rw [← String.toList_inj]
  simp [hfront, hback, Literal.toList_ofContent]

/-- The statement of a generated function. -/
def bodyLine (type : ValueType) (name : String) : String :=
  if type = .void then
    "thank you for printing " ++ Literal.ofContent (name.toList ++ " called".toList)
  else "thank you for returning " ++ zeroLiteral type

theorem functionText_eq (type : ValueType) (name : String) :
    functionText type name = unlines [head type name, "    " ++ bodyLine type name, "\x7d"] := by
  have hprinting : s!"    thank you for printing \"{name} called\"" =
      "    " ++ ("thank you for printing " ++
        Literal.ofContent (name.toList ++ " called".toList)) :=
    indented_literal [] (by decide) (by decide) name
  have hreturning : "    thank you for returning " ++ zeroLiteral type =
      "    " ++ ("thank you for returning " ++ zeroLiteral type) := by
    have hfront : "    thank you for returning " = "    " ++ "thank you for returning " := by
      decide +kernel
    exact (congrArg (· ++ zeroLiteral type) hfront).trans String.append_assoc
  have hbody : (if type = .void then s!"    thank you for printing \"{name} called\""
      else "    thank you for returning " ++ zeroLiteral type) = "    " ++ bodyLine type name := by
    rw [bodyLine, apply_ite ("    " ++ ·), hprinting, hreturning]
  exact congrArg (fun line => unlines [head type name, line, "\x7d"]) hbody

theorem programText_eq (name : String) :
    programText name = unlines [head .void "main",
      "    " ++ ("please create text greeting equals " ++
        Literal.ofContent ("Hello from ".toList ++ name.toList)),
      "    " ++ "thank you for printing greeting", "\x7d"] := by
  have hgreeting : s!"    please create text greeting equals \"Hello from {name}\"" =
      "    " ++ ("please create text greeting equals " ++
        Literal.ofContent ("Hello from ".toList ++ (name.toList ++ []))) :=
    indented_literal "Hello from ".toList (by decide) (by decide) name
  have hhead : "please define function void main() \x7b" = head .void "main" := by decide +kernel
  have hprinting : "    thank you for printing greeting" =
      "    " ++ "thank you for printing greeting" := by decide +kernel
  unfold programText
  rw [hgreeting, hhead, hprinting, List.append_nil]

theorem printed_clean (hname : Literal.isIdentifier name = true) :
    Plain (name.toList ++ " called".toList) ∧ '\n' ∉ name.toList ++ " called".toList := by
  obtain ⟨hplain, hline⟩ := name_clean hname
  exact ⟨plain_append.2 ⟨hplain, by decide⟩,
    fun hm => (List.mem_append.1 hm).elim hline (by decide)⟩

theorem greeting_clean (hname : Literal.isIdentifier name = true) :
    Plain ("Hello from ".toList ++ name.toList) ∧ '\n' ∉ "Hello from ".toList ++ name.toList := by
  obtain ⟨hplain, hline⟩ := name_clean hname
  exact ⟨plain_append.2 ⟨by decide, hplain⟩,
    fun hm => (List.mem_append.1 hm).elim (by decide) hline⟩

theorem isValueType_of_ne (hinvalid : type ≠ .invalid) (hvoid : type ≠ .void) :
    Expression.isValueType type = true := by
  cases type with
  | invalid => exact absurd rfl hinvalid
  | void => exact absurd rfl hvoid
  | _ => rfl

/-- The statement of a generated function is accepted, and settles the function. -/
theorem ofLine_bodyLine (htype : type ≠ .invalid) (hname : Literal.isIdentifier name = true)
    (ls : List String) {st : State}
    (hst : st = (ofLine (entered ls ⟨name, type, []⟩) (bodyLine type name)).state) :
    Accepts (entered ls ⟨name, type, []⟩) (bodyLine type name) ∧ Inside st ⟨name, type, []⟩ ∧
      (type = .void ∨ name ∈ st.settled) := by
  have hinside := inside_entered ls ⟨name, type, []⟩
  by_cases hvoid : type = .void
  · obtain ⟨hplain, hline⟩ := printed_clean hname
    have hprinted := printed_literal hplain hline (entered ls ⟨name, type, []⟩)
    rw [bodyLine, if_pos hvoid] at hst ⊢
    rw [hst, hprinted.2]
    exact ⟨hprinted.1, hinside.over _ rfl, .inl hvoid⟩
  · have hreturned := returned_zero (isValueType_of_ne htype hvoid) name ls
    rw [bodyLine, if_neg hvoid] at hst ⊢
    rw [hst, hreturned.2]
    exact ⟨hreturned.1, ⟨hinside.blocks, hinside.indent, hinside.function, hinside.functions,
      hinside.malformed, hinside.insideControl⟩, .inr List.mem_cons_self⟩

theorem neat_closing : Neat "\x7d" := ⟨by decide, by decide, by decide⟩

theorem neat_literal {lead : String} {c : Char} {cs body : List Char}
    (hlead : lead.toList = c :: cs) (hc : isBlank c = false) (hcs : '\n' ∉ c :: cs)
    (hline : '\n' ∉ body) : Neat (lead ++ Literal.ofContent body) where
  oneLine := by
    rw [String.toList_append, hlead, Literal.toList_ofContent]
    have hquote : '\n' ∉ '"' :: (body ++ ['"']) := by simp [hline]
    exact fun hm => (List.mem_append.1 hm).elim hcs hquote
  trimmed := trim_append_literal hlead hc
  solid := by
    rintro h
    have htext := congrArg String.toList h
    rw [String.toList_append, hlead] at htext
    cases htext

theorem neat_bodyLine (htype : type ≠ .invalid) (hname : Literal.isIdentifier name = true) :
    Neat (bodyLine type name) := by
  by_cases hvoid : type = .void
  · rw [bodyLine, if_pos hvoid]
    exact neat_literal toList_printing rfl (by decide +kernel) (printed_clean hname).2
  · rw [bodyLine, if_neg hvoid]
    refine ⟨?_, (line_zero (isValueType_of_ne htype hvoid)).1, ?_⟩
    · cases type <;> decide +kernel
    · cases type <;> decide +kernel

/-- The translation of a generated function tells nothing but a missing entry point. -/
theorem diagnostics_functionText (htype : type ≠ .invalid) (hname : isFunctionName name = true) :
    (translate (functionText type name)).diagnostics =
      if name = "main" ∧ type = .void then [] else [Diagnostic.noEntryPoint] := by
  have hidentifier := (isFunctionName_iff.1 hname).1
  have hlines : solidLines (lines (functionText type name)) =
      [head type name, bodyLine type name, "\x7d"] := by
    rw [functionText_eq]
    exact solidLines_unlines <| .cons ⟨neat_head type hidentifier, .inl rfl⟩ <|
      .cons ⟨neat_bodyLine htype hidentifier, .inr rfl⟩ <| .cons ⟨neat_closing, .inl rfl⟩ .nil
  obtain ⟨hhead, hentered⟩ := ofLine_head htype hname [head type name, bodyLine type name, "\x7d"]
  obtain ⟨hbody, hinside, hsettled⟩ := ofLine_bodyLine htype hidentifier
    [head type name, bodyLine type name, "\x7d"] rfl
  rw [translate, hlines]
  show toldFrom _ _ = _
  rw [toldFrom_cons hhead, hentered, toldFrom_cons hbody, hinside.toldFrom_closing hsettled]
  simp

theorem toldFrom_program {body : List Char} (hplain : Plain body) (hline : '\n' ∉ body)
    (ls : List String) :
    toldFrom { lines := ls } [head .void "main",
      "please create text greeting equals " ++ Literal.ofContent body,
      "thank you for printing greeting", "\x7d"] = [] := by
  have hmain : isFunctionName "main" = true := by decide
  have hvoid : ValueType.void ≠ .invalid := by decide
  obtain ⟨hhead, hentered⟩ := ofLine_head hvoid hmain ls
  obtain ⟨hcreated, hbehind⟩ :=
    created_greeting (entered ls ⟨"main", .void, []⟩) hplain hline rfl rfl
  rw [toldFrom_cons hhead, hentered, toldFrom_cons hcreated]
  generalize (ofLine (entered ls ⟨"main", .void, []⟩) _).state = st at hbehind ⊢
  have hinside : Inside st ⟨"main", .void, []⟩ :=
    hbehind ▸ (inside_entered ls _).over _ (Scope.functions_declare "greeting" .text _)
  have hdeclared : st.scope.isDeclared "greeting" = true := by
    rw [hbehind]
    rfl
  obtain ⟨hprinted, hbehind⟩ := printed_variable hdeclared
  rw [toldFrom_cons hprinted, hbehind, (hinside.over (st.line + 1) rfl).toldFrom_closing (.inl rfl)]
  rfl

/-- The translation of a generated program tells nothing. -/
theorem diagnostics_programText (hname : Literal.isIdentifier name = true) :
    (translate (programText name)).diagnostics = [] := by
  obtain ⟨hplain, hline⟩ := greeting_clean hname
  have hlines : solidLines (lines (programText name)) = [head .void "main",
      "please create text greeting equals " ++
        Literal.ofContent ("Hello from ".toList ++ name.toList),
      "thank you for printing greeting", "\x7d"] := by
    rw [programText_eq]
    refine solidLines_unlines <| .cons ⟨neat_head .void (by decide), .inl rfl⟩ <|
      .cons ⟨?_, .inr rfl⟩ <| .cons ⟨?_, .inr rfl⟩ <| .cons ⟨neat_closing, .inl rfl⟩ .nil
    · exact neat_literal toList_creating rfl (by decide) hline
    · exact ⟨by decide, by decide, by decide⟩
  rw [translate, hlines]
  exact toldFrom_program hplain hline _

/-! ## What is written -/

section written

variable {d d' : Disk} {dir typeName file : String}

theorem type_ne_invalid (h : returnType? typeName = some type) : type ≠ .invalid := by
  have hmem := List.mem_of_find?_eq_some h
  rintro rfl
  exact absurd hmem (by decide)

theorem function_accepted {r : Except Fault String}
    (hrun : (function dir name typeName).perform d = (r, d'))
    (hname : r ≠ .error (.functionName name)) (htype : r ≠ .error (.returnType typeName)) :
    isFunctionName name = true ∧ ∃ type, returnType? typeName = some type := by
  unfold function at hrun
  by_cases hvalid : isFunctionName name = true
  · rw [if_pos hvalid] at hrun
    refine ⟨hvalid, ?_⟩
    cases hfound : returnType? typeName with
    | some type => exact ⟨type, rfl⟩
    | none =>
      rw [hfound] at hrun
      exact absurd (congrArg Prod.fst hrun).symm htype
  · rw [if_neg hvalid] at hrun
    exact absurd (congrArg Prod.fst hrun).symm hname

theorem program_accepted {r : Except Fault String}
    (hrun : (program dir name).perform d = (r, d')) (hname : r ≠ .error (.programName name)) :
    Literal.isIdentifier name = true := by
  unfold program at hrun
  by_contra hvalid
  rw [if_neg hvalid] at hrun
  exact absurd (congrArg Prod.fst hrun).symm hname

theorem function_written (h : d.Sound) (hname : isFunctionName name = true)
    (htype : returnType? typeName = some type)
    (hrun : (function dir name typeName).perform d = (.ok file, d')) :
    d'.content? file =
      some ((d.content? file).elim "" (· ++ "\n") ++ functionText type name) := by
  unfold function at hrun
  rw [if_pos hname, htype] at hrun
  obtain ⟨_, d₁, hmake, hrun⟩ := Work.perform_bind_ok.1 hrun
  obtain ⟨e, d₂, hget, hrun⟩ := Work.perform_bind_ok.1 hrun
  cases hget
  obtain ⟨_, d₃, hwrite, hrun⟩ := Work.perform_bind_ok.1 hrun
  cases hrun
  obtain ⟨husable, hnames, hwritten⟩ := Work.makeFolders_write_written h hmake hwrite
  obtain ⟨raw, hclean⟩ := Path.join_clean husable.ne_empty
  have hfurnished := Work.makeFolders_furnished h hmake
  have hbefore : d₁.content? (path dir name) = d.content? (path dir name) := by
    rw [path, hclean]
    exact h.content?_congr hfurnished.sound hfurnished.here raw (hfurnished.file? _)
  rw [hwritten.content?_self ⟨raw, hclean⟩ husable hnames, ← hbefore, Disk.content?]
  cases d₁.read (path dir name) with
  | ok existing => rfl
  | error fault => exact congrArg some String.empty_append.symm

theorem program_written (h : d.Sound) (hname : Literal.isIdentifier name = true)
    (hrun : (program dir name).perform d = (.ok file, d')) :
    d'.content? file = some (programText name) := by
  unfold program at hrun
  rw [if_pos hname] at hrun
  obtain ⟨_, d₁, hmake, hrun⟩ := Work.perform_bind_ok.1 hrun
  obtain ⟨e, d₂, hget, hrun⟩ := Work.perform_bind_ok.1 hrun
  cases hget
  by_cases htaken : (d₁.lookup (path dir name)).isOk = true
  · rw [if_pos htaken] at hrun
    cases hrun
  · rw [if_neg htaken] at hrun
    obtain ⟨_, d₃, hwrite, hrun⟩ := Work.perform_bind_ok.1 hrun
    cases hrun
    obtain ⟨husable, hnames, hwritten⟩ := Work.makeFolders_write_written h hmake hwrite
    exact hwritten.content?_self (Path.join_clean husable.ne_empty) husable hnames

end written

/-- Generated text translates. Unless a function is refused for its name or its type, what is
generated for it leads to no diagnostic but the one about the entry point, and to none if it is the
entry point; a program that is not refused for its name leads to none. What is generated is what is
written, behind what the file of a function held before. -/
theorem generated_translate {d : Disk} (h : d.Sound) (dir name : String) :
    (∀ typeName r d', (function dir name typeName).perform d = (r, d') →
      r ≠ .error (.functionName name) → r ≠ .error (.returnType typeName) →
      ∃ type, returnType? typeName = some type ∧
        (translate (functionText type name)).diagnostics =
          (if name = "main" ∧ type = .void then [] else [Diagnostic.noEntryPoint]) ∧
        ∀ file, r = .ok file → d'.content? file =
          some ((d.content? file).elim "" (· ++ "\n") ++ functionText type name)) ∧
    ∀ r d', (program dir name).perform d = (r, d') → r ≠ .error (.programName name) →
      (translate (programText name)).succeeded = true ∧
        (translate (programText name)).diagnostics = [] ∧
        ∀ file, r = .ok file → d'.content? file = some (programText name) := by
  constructor
  · intro typeName r d' hrun hname htype
    obtain ⟨hvalid, type, hfound⟩ := function_accepted hrun hname htype
    refine ⟨type, hfound, diagnostics_functionText (type_ne_invalid hfound) hvalid, ?_⟩
    rintro file rfl
    exact function_written h hvalid hfound hrun
  · intro r d' hrun hname
    have hvalid := program_accepted hrun hname
    have hnone := diagnostics_programText hvalid
    refine ⟨?_, hnone, ?_⟩
    · rw [Run.succeeded, hnone]
      rfl
    · rintro file rfl
      exact program_written h hvalid hrun

/-- A function with a result in an empty directory. -/
theorem generated_translate_total :
    Disk.Sound ⟨⟨[]⟩, []⟩ ∧ ((function "src" "total" "integer").perform ⟨⟨[]⟩, []⟩).1 =
        .ok "src/total.polite" ∧
      ((function "src" "total" "integer").perform ⟨⟨[]⟩, []⟩).2.content? "src/total.polite" =
        some (functionText .integer "total") ∧
      (translate (functionText .integer "total")).diagnostics = [Diagnostic.noEntryPoint] := by
  have hsound : Disk.Sound ⟨⟨[]⟩, []⟩ := by decide
  have hrun :
      ((function "src" "total" "integer").perform ⟨⟨[]⟩, []⟩).1 = .ok "src/total.polite" := by
    decide +kernel
  obtain ⟨type, htype, htold, hwritten⟩ :=
    (generated_translate hsound "src" "total").1 "integer" _ _
    (Work.perform_eq_of_fst hrun) (by decide) (by decide)
  obtain rfl : ValueType.integer = type := by
    have hfound : returnType? "integer" = some .integer := by decide
    exact Option.some.inj (hfound.symm.trans htype)
  exact ⟨hsound, hrun, hwritten _ rfl, htold⟩

end Scaffold

end Courtesy
