import Courtesy.Proofs.Visibility

/-!
# The function that a return belongs to

A state knows one function: the name in the last line with the shape of a header, accepted or not,
until no block is open (`Run.function_before`). So a return is checked against the function of the
latest header, which need not be the function around it: behind a function that is defined inside of
another one, the returns of the outer function are checked against the inner one
(`return_checked`, `return_behind_inner_function`). Where headers stand outside of all blocks only,
the two are the same.
-/

namespace Courtesy

open Statement

/-! ## What is returned -/

namespace Statement

/-- What is returned by a function with a result, and the code of the return: nothing where the
result is void, and otherwise an expression that is accepted for the result, or a call of a function
whose own result can be used as it. -/
inductive Gives (scope : Scope) : ValueType → List Token → String → Prop
  | nothing : Gives scope .void [] "return;"
  | value {result : ValueType} {first : Token} {rest : List Token} {code : String}
      (hresult : result ≠ .void) (h : Lowers scope (Token.join (first :: rest)) result code) :
      Gives scope result (first :: rest) ("return " ++ code ++ ";")
  | call {result : ValueType} {first : Token} {rest : List Token} {c : Call}
      (hresult : result ≠ .void) (hfirst : first.kind = .call) (h : call scope rest = .ok c)
      (hcallee : c.callee.result ≠ .void) (hfits : c.callee.result.compatible result = true) :
      Gives scope result (first :: rest)
        ("return " ++ ((if c.callee.result = .decimal && result = .integer then "(int)" else "") ++
          c.code) ++ ";")

theorem returnStatement_gives {st st' : State} {tokens : List Token} {line : String}
    (h : returnStatement st tokens = .ok (st', line)) :
    ∃ name f, st.function = some name ∧ st.scope.function? name = some f ∧
      Gives st.scope f.result (tokens.drop 1) line := by
  obtain ⟨name, f, hname, hf, -, hgiven⟩ := returnStatement_checked h
  refine ⟨name, f, hname, hf, ?_⟩
  rcases hgiven with ⟨hvoid, hdrop, rfl⟩ | ⟨first, rest, code, hresult, hdrop, hcode, rfl⟩
  · rw [hvoid, hdrop]
    exact .nothing
  · rw [hdrop]
    unfold valueOrCall at hcode
    split at hcode
    · rename_i hfirst
      obtain ⟨c, hc, hcallee, hfits, rfl⟩ := callValue_ok hcode
      exact .call hresult hfirst hc hcallee hfits
    · exact .value hresult (value_lowers hcode)

/-! ## What a line does to the function of the state -/

theorem definition_function (st : State) (tokens : List Token) :
    (definition st tokens).1.function =
      match functionHeader tokens with
      | .ok h => some h.name
      | .error _ => st.function := by
  unfold definition
  cases functionHeader tokens with
  | error fault => rfl
  | ok header =>
    dsimp only
    split
    · rfl
    · split
      · rfl
      · split <;> rfl

theorem Performed.function {st : State} {tokens : List Token} {kind : Kind} {o : Outcome}
    (h : Performed st tokens kind o) (hk : kind ≠ .define) : o.state.function = st.function := by
  cases h with
  | defined => exact absurd rfl hk
  | _ => rfl

end Statement

namespace Step

section

variable {st : State} {text name : String}

theorem function_ofLine (hne : text ≠ "\x7d") (st : State) :
    (ofLine st text).state.function = (perform (marked st text) text).1.state.function := by
  rw [ofLine_statement hne]
  generalize perform (marked st text) text = r
  dsimp only
  split <;> rfl

/-- A header sets the function, whether it is accepted or not. -/
theorem function_of_heads (h : Line.Heads name text) (st : State) :
    (ofLine st text).state.function = some name := by
  obtain ⟨first, rest, header, hl, hlead, hh, rfl⟩ := Line.heads_iff.1 h
  rw [function_ofLine h.ne_closing, (perform_define _ hl hlead).1, definition_function, hh]

theorem Reading.function {r : Step × List Param} (h : Reading st text r)
    (hno : ∀ name, ¬ Line.Heads name text) : r.1.state.function = st.function := by
  have hkept : ∀ {first rest o}, Token.ofLine text = .ok (first :: rest) →
      Performed st (first :: rest) first.kind o → o.state.function = st.function := by
    intro first rest o hl hp
    by_cases hk : first.kind = .define
    · rw [hk] at hp
      cases hp with
      | refused _ hne => exact absurd rfl hne
      | defined =>
        rw [definition_function]
        cases hh : functionHeader (first :: rest) with
        | error fault => rfl
        | ok header =>
          exact absurd (Line.heads_iff.2 ⟨first, rest, header, hl, hk, hh, rfl⟩) (hno header.name)
    · exact hp.function hk
  cases h with
  | blank _ => rfl
  | unread _ _ _ => rfl
  | rejected _ hl hp => exact hkept hl hp
  | accepted _ hl hp => exact hkept hl hp

/-- Any other statement keeps it. -/
theorem function_kept (hne : text ≠ "\x7d") (hno : ∀ name, ¬ Line.Heads name text) (st : State) :
    (ofLine st text).state.function = st.function := by
  rw [function_ofLine hne, (perform_reading (marked st text) text).function hno, marked_function]

/-- A closing brace keeps it too, unless it closes the last block. -/
theorem function_closing (hc : st.Counted) :
    (ofLine st "\x7d").state.function = if st.blocks.length = 1 then none else st.function := by
  cases hb : st.blocks with
  | nil => rw [ofLine_closing_nil hb]; rfl
  | cons b outer =>
    have hlast : st.indent - 1 = 0 ↔ (b :: outer).length = 1 := by
      rw [hc.indent, hb, List.length_cons]
      omega
    rw [ofLine_closing_cons hb]
    simp only [hlast]

end

end Step

/-! ## The latest header -/

theorem Line.Heads.opens {name text : String} (h : Heads name text)
    (htrim : Text.trim text = text) : "\x7b" ∈ tokenize text := by
  obtain ⟨tokens, inner, hl, hkinds, -⟩ := h
  have hbrace : Kind.openBrace ∈ tokens.map (·.kind) := by
    rw [hkinds]
    simp
  obtain ⟨t, ht, hk⟩ := List.mem_map.1 hbrace
  have hopens := (Token.opens_iff htrim hl).2 ⟨t, ht, hk⟩
  rw [Step.opens_eq] at hopens
  exact of_decide_eq_true hopens

namespace Run

/-- The last header before the line with index `n` has the index `m`, and a block has been open
ever since. -/
structure Latest (program : List String) (n m : Nat) (name : String) : Prop where
  above : m < n
  heads : Heads program m name
  isOpen : StillOpen program m n 1
  last : ∀ l other, m < l → l < n → ¬ Heads program l other

/-- Of the headers whose blocks are still open before the line with index `n`, the innermost has the
index `m`. -/
structure Encloses (program : List String) (n m : Nat) (name : String) : Prop where
  above : m < n
  heads : Heads program m name
  isOpen : StillOpen program m n (Nesting.before program m + 1)
  innermost : ∀ l other, m < l → l < n → Heads program l other →
    ¬ StillOpen program l n (Nesting.before program l + 1)

section

variable {program : List String} {m n : Nat} {name : String}

theorem Latest.depth_pos (h : Latest program n m name) : 1 ≤ Nesting.before program n :=
  h.isOpen n h.above (Nat.le_refl n)

/-- A header opens a block. -/
theorem Heads.depth (htrim : ∀ line ∈ program, Text.trim line = line) (h : Heads program n name) :
    Nesting.before program (n + 1) = Nesting.before program n + 1 := by
  obtain ⟨text, htext, hheads⟩ := h
  have hopens := hheads.opens (htrim text (List.mem_of_getElem? htext))
  rw [Nesting.before_succ htext, Nesting.behind, if_neg hheads.ne_closing, Step.opens_eq,
    if_pos (decide_eq_true hopens)]

/-- Behind a line that is no header, the latest header is the one before it, as long as a block is
open. -/
theorem latest_succ (hno : ∀ other, ¬ Heads program n other) :
    (∃ m, Latest program (n + 1) m name) ↔
      (∃ m, Latest program n m name) ∧ 1 ≤ Nesting.before program (n + 1) := by
  constructor
  · rintro ⟨m, h⟩
    have hmn : m < n := by
      apply Nat.lt_of_le_of_ne (Nat.le_of_lt_succ h.above)
      intro hmn
      exact hno name (hmn ▸ h.heads)
    obtain ⟨hopen, hdepth⟩ := (stillOpen_succ (Nat.le_of_lt hmn)).1 h.isOpen
    exact ⟨⟨m, hmn, h.heads, hopen,
      fun l other hml hln => h.last l other hml (Nat.lt_succ_of_lt hln)⟩, hdepth⟩
  · rintro ⟨⟨m, h⟩, hdepth⟩
    refine ⟨m, Nat.lt_succ_of_lt h.above, h.heads, ?_, fun l other hml hln => ?_⟩
    · exact (stillOpen_succ (Nat.le_of_lt h.above)).2 ⟨h.isOpen, hdepth⟩
    · rcases Nat.lt_or_eq_of_le (Nat.le_of_lt_succ hln) with hln | rfl
      · exact h.last l other hml hln
      · exact hno other

/-- Behind a header, it is the latest one. -/
theorem latest_succ_heads {name' : String} (h : Heads program n name')
    (hdepth : 1 ≤ Nesting.before program (n + 1)) :
    (∃ m, Latest program (n + 1) m name) ↔ name' = name := by
  constructor
  · rintro ⟨m, hlatest⟩
    rcases Nat.lt_or_eq_of_le (Nat.le_of_lt_succ hlatest.above) with hmn | rfl
    · exact absurd h (hlatest.last n name' hmn (Nat.lt_succ_self n))
    · obtain ⟨text, htext, hheads⟩ := h
      exact hheads.unique ((heads_iff htext).1 hlatest.heads)
  · rintro rfl
    refine ⟨n, Nat.lt_succ_self n, h, ?_, fun l other hnl hln => ?_⟩
    · exact (stillOpen_succ (Nat.le_refl n)).2 ⟨stillOpen_self, hdepth⟩
    · omega

/-- One line, be it a header or not, leaves the function that is the latest behind it. -/
theorem function_succ (htrim : ∀ line ∈ program, Text.trim line = line) {text : String}
    (htext : program[n]? = some text)
    (ih : (before program n).function = some name ↔ ∃ m, Latest program n m name) :
    (before program (n + 1)).function = some name ↔ ∃ m, Latest program (n + 1) m name := by
  rw [before_succ htext]
  by_cases hheads : ∃ name', Heads program n name'
  · obtain ⟨name', hheads⟩ := hheads
    have hdepth : 1 ≤ Nesting.before program (n + 1) := by
      rw [hheads.depth htrim]
      omega
    rw [Step.function_of_heads ((heads_iff htext).1 hheads), Option.some.injEq,
      latest_succ_heads hheads hdepth]
  · have hno : ∀ other, ¬ Heads program n other := fun other h => hheads ⟨other, h⟩
    have hpos : (∃ m, Latest program n m name) → 1 ≤ Nesting.before program n :=
      fun ⟨_, h⟩ => h.depth_pos
    rw [latest_succ hno, Nesting.before_succ htext, Nesting.behind]
    by_cases hne : text = "\x7d"
    · subst hne
      rw [if_pos rfl, Step.function_closing (before_counted program n), blocks_before]
      split
      · -- the last block is closed, and no header is the latest any more
        constructor
        · intro h
          cases h
        · rintro ⟨-, h⟩
          omega
      · rw [ih]
        refine (and_iff_left_of_imp fun h => ?_).symm
        have := hpos h
        omega
    · rw [if_neg hne, Step.function_kept hne fun other h => hno other ((heads_iff htext).2 h), ih]
      refine (and_iff_left_of_imp fun h => ?_).symm
      have := hpos h
      split <;> omega

/-- The function of the state is the one of the latest header. -/
theorem function_before (htrim : ∀ line ∈ program, Text.trim line = line) (n : Nat)
    (name : String) :
    (before program n).function = some name ↔ ∃ m, Latest program n m name := by
  induction n with
  | zero =>
    constructor
    · intro h
      cases h
    · rintro ⟨m, h⟩
      exact absurd h.above (Nat.not_lt_zero m)
  | succ n ih =>
    cases htext : program[n]? with
    | some text => exact function_succ htrim htext ih
    | none =>
      have hno : ∀ other, ¬ Heads program n other := by
        rintro other ⟨text, h, -⟩
        rw [htext] at h
        cases h
      rw [before_of_getElem?_none htext, latest_succ hno, Nesting.before_of_getElem?_none htext, ih]
      exact (and_iff_left_of_imp fun ⟨_, h⟩ => h.depth_pos).symm

/-- The latest header is the innermost one that is open, if its block is open at all. -/
theorem Latest.encloses (h : Latest program n m name)
    (hopen : StillOpen program m n (Nesting.before program m + 1)) : Encloses program n m name :=
  ⟨h.above, h.heads, hopen, fun l other hml hln hl => absurd hl (h.last l other hml hln)⟩

/-- No function around a line starts behind the latest header. -/
theorem Latest.enclosed {e : Nat} {owner : String} (h : Latest program n m name)
    (he : Encloses program n e owner) :
    e ≤ m ∧ (e = m ↔ StillOpen program m n (Nesting.before program m + 1)) := by
  have hle : e ≤ m := Nat.le_of_not_lt fun hme => h.last e owner hme he.above he.heads
  refine ⟨hle, ?_, fun hopen => ?_⟩
  · rintro rfl
    exact he.isOpen
  · apply Nat.le_antisymm hle
    apply Nat.le_of_not_lt
    intro hem
    exact he.innermost m name hem h.above h.heads hopen

/-- The latest header, where it is accepted, is the header of the entry of its name. -/
theorem Latest.emitted (h : Latest program n m name) {f : Signature}
    (hf : (before program n).scope.function? name = some f) {header : String}
    (hheader : program[m]? = some header) (hacc : Step.Accepts (before program m) header) :
    (Step.ofLine (before program m) header).emitted =
      (before program m).indented (headed (methodHead f)) := by
  obtain ⟨g, rfl, hg⟩ := hacc.enters ((heads_iff hheader).1 h.heads)
  have hentry : (before program (m + 1)).scope.function? g.name = some g := by
    rw [before_succ hheader]
    exact hg.2.2
  have hgf : g = f := Option.some.inj ((entry_before h.above hentry).symm.trans hf)
  rw [← hgf]
  exact hg.emitted hacc

end

end Run

/-! ## Returns -/

/-- An accepted return is checked against the function of the latest header: it gives what this
function returns, and where the header is accepted, it is the emitted one. The header is that of the
innermost function around the return if its block is still open, as it is where it stands outside of
all blocks. Otherwise the function around the return starts further up, and its signature is the one
in use only when it has the same name. -/
theorem return_checked (input : List String) {n : Nat} {text : String}
    (hlead : Line.Leads "thank you for returning" text)
    (hacc : Step.Accepts (Run.before (Text.solidLines input) n) text) :
    let program := Text.solidLines input
    let st := Run.before program n
    ∃ m name f lead rest code,
      Run.Latest program n m name ∧ st.function = some name ∧
      st.scope.function? name = some f ∧
      Token.ofLine text = .ok (lead :: rest) ∧ Gives st.scope f.result rest code ∧
      (Step.ofLine st text).emitted = st.indented [code] ∧
      (∀ header, program[m]? = some header → Step.Accepts (Run.before program m) header →
        (Step.ofLine (Run.before program m) header).emitted =
          (Run.before program m).indented (headed (methodHead f))) ∧
      let isOpen := Run.StillOpen program m n (Nesting.before program m + 1)
      (isOpen → Run.Encloses program n m name) ∧ (Nesting.before program m = 0 → isOpen) ∧
      ∀ e owner, Run.Encloses program n e owner →
        e ≤ m ∧ (e = m ↔ isOpen) ∧ (st.scope.function? owner = some f ↔ owner = name) := by
  intro program st
  have htrim : ∀ line ∈ program, Text.trim line = line := fun _ => Text.trim_of_mem_solidLines
  have hne : text ≠ "\x7d" := hlead.ne_closing (by decide)
  obtain ⟨lead, rest, hl, -⟩ := id hlead
  have hk : lead.kind = .giveBack := Line.kind_of_leads hlead hl
  obtain ⟨st', o, hp, hemitted⟩ := hacc.carried hne hl
  rw [hk] at hp
  cases hp with
  | @returned settled code hok =>
    obtain ⟨name, f, hname, hf, hgives⟩ := returnStatement_gives hok
    rw [Step.marked_function] at hname
    rw [Step.marked_scope] at hf hgives
    obtain ⟨m, hlatest⟩ := (Run.function_before htrim n name).1 hname
    refine ⟨m, name, f, lead, rest, code, hlatest, hname, hf, hl, hgives, hemitted,
      fun header => hlatest.emitted hf, hlatest.encloses, fun hzero => ?_, fun e owner he => ?_⟩
    · rw [hzero]
      exact hlatest.isOpen
    · obtain ⟨hle, hopen⟩ := hlatest.enclosed he
      refine ⟨hle, hopen, fun howner => ?_, fun howner => howner ▸ hf⟩
      -- an entry stands under its own name only
      exact (Scope.name_of_function? howner).symm.trans (Scope.name_of_function? hf)

/-- An integer is returned where the result is a decimal. -/
theorem return_checked_sample :
    let input := ["please define function decimal f(integer a) \x7b", "  thank you for returning a"]
    let program := Text.solidLines input
    let st := Run.before program 1
    program[1]? = some "thank you for returning a" ∧
      Step.Accepts st "thank you for returning a" ∧
      ∃ m name f lead rest code, Run.Latest program 1 m name ∧ st.function = some name ∧
        st.scope.function? name = some f ∧
        Token.ofLine "thank you for returning a" = .ok (lead :: rest) ∧
        Gives st.scope f.result rest code ∧
        (Step.ofLine st "thank you for returning a").emitted = st.indented [code] := by
  intro input program st
  obtain ⟨hn, hacc, hlead⟩ : program[1]? = some "thank you for returning a" ∧
      Step.Accepts st "thank you for returning a" ∧
      Line.Leads "thank you for returning" "thank you for returning a" := by
    unfold Step.Accepts
    decide +kernel
  obtain ⟨m, name, f, lead, rest, code, hlatest, hname, hf, hl, hgives, hemitted, -⟩ :=
    return_checked input (n := 1) hlead hacc
  exact ⟨hn, hacc, m, name, f, lead, rest, code, hlatest, hname, hf, hl, hgives, hemitted⟩

/-- Behind the function `g` inside of `f`, a return without a value is accepted and emitted in the
body of `f`, which returns an integer. -/
theorem return_behind_inner_function :
    let program := ["please define function integer f() \x7b", "thank you for returning 1",
      "please define function void g() \x7b", "\x7d", "thank you for returning", "\x7d"]
    let st := Run.before program 4
    Run.Encloses program 4 0 "f" ∧ st.function = some "g" ∧
      st.scope.function? "f" = some ⟨"f", .integer, []⟩ ∧
      Step.Accepts st "thank you for returning" ∧
      (Step.ofLine st "thank you for returning").emitted = ["    return;"] := by
  intro program st
  let tokens : List Token := [⟨"please define function", .define, 1⟩, ⟨"integer", .typeName, 24⟩,
    ⟨"f", .identifier, 32⟩, ⟨"(", .openParen, 33⟩, ⟨")", .closeParen, 34⟩, ⟨"\x7b", .openBrace, 36⟩]
  obtain ⟨hl, h0, h1, h2, h3, h4, hst⟩ :
      (Token.ofLine "please define function integer f() \x7b").toOption = some tokens ∧
      Nesting.before program 0 = 0 ∧ Nesting.before program 1 = 1 ∧ Nesting.before program 2 = 1 ∧
      Nesting.before program 3 = 2 ∧ Nesting.before program 4 = 1 ∧ st.function = some "g" ∧
      st.scope.function? "f" = some ⟨"f", .integer, []⟩ ∧
      Step.Accepts st "thank you for returning" ∧
      (Step.ofLine st "thank you for returning").emitted = ["    return;"] := by
    unfold Step.Accepts
    decide +kernel
  rw [except_toOption_eq_some] at hl
  refine ⟨⟨by decide, ⟨_, rfl, _, [], hl, rfl, rfl⟩, ?_, ?_⟩, hst⟩
  · intro l h0l hl4
    obtain rfl | rfl | rfl | rfl : l = 1 ∨ l = 2 ∨ l = 3 ∨ l = 4 := by omega
    all_goals omega
  · -- one block is left before the return, and `f` has opened it
    intro l other h0l hl4 hheads hopen
    have hlast := hopen 4 hl4 (Nat.le_refl 4)
    obtain rfl | rfl | rfl : l = 1 ∨ l = 2 ∨ l = 3 := by omega
    all_goals omega

end Courtesy
