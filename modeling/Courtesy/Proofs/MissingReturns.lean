import Courtesy.Proofs.ControlBlocks
import Courtesy.Proofs.Verdict

/-!
# Missing returns

A function with a result owes a return outside of its control blocks. The brace that closes a
function tells that a return is missing exactly if each accepted return of the function is shielded,
that is, counts as inside of a control block (`Run.told_closing`).

Where every line that opens a block is accepted, these are the returns that do not stand directly in
the body (`missing_return_iff`). A refused line opens a block all the same; but unless it is led by
a control phrase, it shields nothing, and a return inside of its block settles the function
(`missing_return_shielded`, `refused_block_unshielded`).
-/

namespace Courtesy

open Text Statement

/-! ## What is told where a function is closed -/

namespace Diagnostic

/-- The function lacks a return outside of its control blocks. -/
def missingReturn (name : String) (number : Nat) : Diagnostic where
  category := .semantic
  message := s!"Function '{name}' must have a return statement outside of any control blocks to ensure a value is always returned."
  line := number

/-- The diagnostic tells that a return is missing in a function, at whatever line. -/
def tellsMissingReturn (name : String) (d : Diagnostic) : Bool :=
  d.category = .semantic && d.message = (missingReturn name 0).message

theorem tellsMissingReturn_self (name : String) (number : Nat) :
    (missingReturn name number).tellsMissingReturn name = true := by
  simp [tellsMissingReturn, missingReturn]

end Diagnostic

theorem Category.ofWording_ne_semantic (message : String) : ofWording message ≠ .semantic := by
  unfold ofWording
  split
  · decide
  · split <;> decide

theorem Text.getLast?_append {s t : String} {c : Char} (h : t.toList.getLast? = some c) :
    (s ++ t).toList.getLast? = some c := by
  rw [String.toList_append, List.getLast?_append, h, Option.some_or]

theorem Diagnostic.getLast?_missingReturn (name : String) (number : Nat) :
    (missingReturn name number).message.toList.getLast? = some '.' := by
  refine Text.getLast?_append (?_ : (String.ofList _).toList.getLast? = some '.')
  rw [String.toList_ofList]
  rfl

theorem Diagnostic.missingReturn_inj {name other : String} (number : Nat)
    (h : (missingReturn name number).tellsMissingReturn other = true) : name = other := by
  simp only [tellsMissingReturn, missingReturn, Bool.and_eq_true, decide_eq_true_eq, true_and,
    ← String.toList_inj, String.toList_append, List.append_cancel_right_eq,
    List.append_cancel_left_eq] at h
  exact String.toList_inj.1 h

/-- No fault of a statement is worded like a missing return: those of its category end otherwise. -/
theorem Statement.Fault.getLast?_message {fault : Fault} (h : fault.category = .semantic) :
    fault.message.toList.getLast? ≠ some '.' := by
  have hne : ∀ {s t : String} {c : Char}, t.toList.getLast? = some c → c ≠ '.' →
      (s ++ t).toList.getLast? ≠ some '.' := by
    intro s t c ht hc
    rw [Text.getLast?_append ht]
    exact fun h => hc (Option.some.inj h)
  cases fault with
  | returnOutside _ => delta message; dsimp only; decide +kernel
  | voidReturns _ => delta message; dsimp only; decide +kernel
  | resultUnknown _ => exact hne (c := '\'') rfl (by decide)
  | resultMissing _ _ _ => exact hne (c := '\'') rfl (by decide)
  | argumentEmpty _ => exact hne (c := '\'') rfl (by decide)
  | voidReturned _ => exact hne (c := '\'') rfl (by decide)
  | voidAssigned _ _ => exact hne (c := '\'') rfl (by decide)
  | argumentCount _ _ given =>
    have hdigits : (toString given).toList = Nat.toDigits 10 given := by simp
    have hlast := List.getLast?_eq_some_getLast (Nat.toDigits_ne_nil (n := given) (b := 10))
    refine hne ((congrArg List.getLast? hdigits).trans hlast) fun hdot => ?_
    have hdigit := Nat.isDigit_of_mem_toDigits (by decide) (by decide)
      (List.mem_of_getLast? (hlast.trans (congrArg some hdot)))
    exact absurd hdigit (by decide)
  | expression _ fault => exact absurd h (Category.ofWording_ne_semantic fault.message)
  | condition _ fault => exact absurd h (Category.ofWording_ne_semantic fault.message)
  | _ =>
    refine absurd h ?_
    delta category
    dsimp only
    decide

namespace Step

open Diagnostic

/-- No statement tells that a return is missing. -/
theorem perform_tells (st : State) (text name : String) :
    ∀ d ∈ Event.diagnostics (perform st text).1.events, d.tellsMissingReturn name = false := by
  have hother : ∀ {d : Diagnostic}, d.category ≠ .semantic → d.tellsMissingReturn name = false := by
    intro d hd
    simp [tellsMissingReturn, hd]
  unfold perform
  split
  · intro d hd
    rw [List.mem_singleton.1 hd]
    exact hother (by decide : Category.lexical ≠ .semantic)
  · intro d hd
    cases hd
  · dsimp only
    split
    · intro d hd
      rw [List.mem_singleton.1 hd]
      exact hother (by decide : Category.structural ≠ .semantic)
    · rename_i fault _
      intro d hd
      rw [List.mem_singleton.1 hd]
      by_cases hcategory : fault.category = .semantic
      · have hmessage : fault.message ≠ (Diagnostic.missingReturn name 0).message := by
          intro h
          exact Fault.getLast?_message hcategory (h ▸ getLast?_missingReturn name 0)
        simp [tellsMissingReturn, Fault.diagnostic, hmessage]
      · exact hother hcategory
    · intro d hd
      cases hd

end Step

/-- The function of the state is `name`. It has a result and is not settled. -/
def Statement.State.Owes (st : State) (name : String) : Prop :=
  st.function = some name ∧ (st.scope.function? name).any (·.result ≠ .void) = true ∧
    name ∉ st.settled

instance (st : State) (name : String) : Decidable (st.Owes name) :=
  inferInstanceAs (Decidable (_ ∧ _ ∧ _))

namespace Step

open Diagnostic

theorem filter_missingReturn (st : State) (name : String) :
    (Event.diagnostics (missingReturn st)).filter (tellsMissingReturn name) =
      if st.Owes name then [.missingReturn name st.lineNumber] else [] := by
  by_cases howes : st.Owes name
  · obtain ⟨hfunction, hresult, hsettled⟩ := id howes
    obtain ⟨f, hf, hresult⟩ := (Option.any_eq_true _ _).1 hresult
    have howed : f.result ≠ .void ∧ name ∉ st.settled := ⟨of_decide_eq_true hresult, hsettled⟩
    have htold : Event.diagnostics (missingReturn st) = [.missingReturn name st.lineNumber] := by
      simp only [missingReturn, hfunction, hf, if_pos howed]
      rfl
    rw [htold, if_pos howes, List.filter_cons_of_pos (tellsMissingReturn_self name st.lineNumber),
      List.filter_nil]
  · rw [if_neg howes, List.filter_eq_nil_iff]
    intro d hd htells
    unfold missingReturn at hd
    split at hd
    · cases hd
    · rename_i other hfunction
      split at hd
      · cases hd
      · rename_i f hf
        split at hd
        · rename_i hmissing
          rw [List.mem_singleton.1 hd] at htells
          obtain rfl := missingReturn_inj st.lineNumber htells
          refine howes ⟨hfunction, ?_, hmissing.2⟩
          rw [hf, Option.any_some]
          exact decide_eq_true hmissing.1
        · cases hd

/-- A missing return is told for the function that the closing of the last block ends. -/
theorem filter_tells_ofLine {st : State} (hc : st.Counted) (text name : String) :
    (Event.diagnostics (ofLine st text).events).filter (tellsMissingReturn name) =
      if text = "\x7d" ∧ st.blocks.length = 1 ∧ st.Owes name then
        [.missingReturn name st.lineNumber] else [] := by
  by_cases hne : text = "\x7d"
  · subst hne
    cases hb : st.blocks with
    | nil =>
      rw [stray_ofLine hb]
      simp [tellsMissingReturn, stray, (by decide : Category.structural ≠ .semantic)]
    | cons b outer =>
      have hlast : st.indent - 1 = 0 ↔ (b :: outer).length = 1 := by
        rw [hc.indent, hb, List.length_cons]
        omega
      rw [ofLine_closing_cons hb]
      simp only [hlast, true_and]
      by_cases hone : (b :: outer).length = 1
      · rw [if_pos hone, filter_missingReturn]
        simp only [hone, true_and]
        rfl
      · rw [if_neg hone, if_neg fun h => hone h.1]
        rfl
  · have hperform := perform_tells (marked st text) text name
    rw [if_neg fun h => hne h.1, List.filter_eq_nil_iff, ofLine_statement hne]
    generalize perform (marked st text) text = r at hperform ⊢
    intro d hd
    rw [hperform d hd]
    exact Bool.false_ne_true

end Step

namespace Run

open Diagnostic

/-- The brace with index `c` closes the block that the line with index `m` has opened. -/
structure Closes (program : List String) (m c : Nat) : Prop where
  above : m < c
  brace : program[c]? = some "\x7d"
  isOpen : StillOpen program m c (Nesting.before program m + 1)
  innermost : Nesting.before program c = Nesting.before program m + 1

/-- The missing returns that a run tells, each at the brace that closes the last block. -/
theorem filter_tells_diagnostics (program : List String) (name : String) :
    (ofLines program).diagnostics.filter (tellsMissingReturn name) =
      (program.zipIdx.filter fun p => p.1 = "\x7d" ∧ Nesting.before program p.2 = 1 ∧
        (before program p.2).Owes name).map fun p => missingReturn name (p.2 + 1) := by
  have hend : (Event.diagnostics (closingEvents (before program program.length))).filter
      (tellsMissingReturn name) = [] := by
    rw [diagnostics_closingEvents, List.filter_eq_nil_iff]
    intro d hd
    have hcategory : d.category ≠ .semantic := by
      rcases List.mem_append.1 hd with hd | hd
      · obtain ⟨n, -, rfl⟩ := List.mem_map.1 hd
        exact (by decide : Category.structural ≠ .semantic)
      · split at hd
        · cases hd
        · rw [List.mem_singleton.1 hd]
          exact (by decide : Category.entryPoint ≠ .semantic)
    simp [tellsMissingReturn, hcategory]
  have hline : ∀ p ∈ program.zipIdx,
      (Event.diagnostics (Step.ofLine (before program p.2) p.1).events).filter
          (tellsMissingReturn name) =
        if p.1 = "\x7d" ∧ Nesting.before program p.2 = 1 ∧ (before program p.2).Owes name then
          [missingReturn name (p.2 + 1)] else [] := by
    intro p hp
    have hk : p.2 < program.length := List.snd_lt_of_mem_zipIdx hp
    rw [Step.filter_tells_ofLine (before_counted program p.2), blocks_before, State.lineNumber,
      before_line (Nat.le_of_lt hk)]
  rw [diagnostics_ofLines, List.filter_append, hend, List.append_nil, List.filter_flatMap,
    flatMap_eq_map_filter hline]

theorem mem_diagnostics_iff {program : List String} {name : String} {c : Nat} :
    missingReturn name (c + 1) ∈ (ofLines program).diagnostics ↔
      program[c]? = some "\x7d" ∧ Nesting.before program c = 1 ∧ (before program c).Owes name := by
  have hfilter : missingReturn name (c + 1) ∈ (ofLines program).diagnostics ↔
      missingReturn name (c + 1) ∈
        (ofLines program).diagnostics.filter (tellsMissingReturn name) := by
    rw [List.mem_filter, and_iff_left (tellsMissingReturn_self name (c + 1))]
  rw [hfilter, filter_tells_diagnostics, List.mem_map]
  constructor
  · rintro ⟨⟨text, k⟩, hp, hline⟩
    obtain ⟨hmem, hp⟩ := List.mem_filter.1 hp
    obtain ⟨rfl, hdepth, howes⟩ := of_decide_eq_true hp
    have hkc : k = c := by
      have := congrArg Diagnostic.line hline
      simp only [missingReturn] at this
      omega
    subst hkc
    exact ⟨List.mem_zipIdx_iff_getElem?.1 hmem, hdepth, howes⟩
  · rintro ⟨hbrace, hdepth, howes⟩
    exact ⟨("\x7d", c), List.mem_filter.2
      ⟨List.mem_zipIdx_iff_getElem?.2 hbrace, decide_eq_true ⟨rfl, hdepth, howes⟩⟩, rfl⟩

section

variable {program : List String} {m c : Nat} {f : Signature}
  (htrim : ∀ line ∈ program, trim line = line)
  (houter : ∀ l other, Heads program l other → Nesting.before program l = 0)

include htrim houter

/-- Where headers stand outside of all blocks, a missing return is told at the end of a function
with a result exactly if each of its accepted returns is shielded. -/
theorem told_closing (henters : Enters program m f) (hcloses : Closes program m c) :
    missingReturn f.name (c + 1) ∈ (ofLines program).diagnostics ↔
      f.result ≠ .void ∧ ∀ l, m < l → l < c → Returns program l → Shielded program l := by
  have hheads : Heads program m f.name := henters.imp fun _ h => ⟨h.1, h.2.1⟩
  have hzero := houter m f.name hheads
  have hopen := hcloses.isOpen
  rw [hzero] at hopen
  have hlast : ∀ l other, m < l → l < c → ¬ Heads program l other := by
    intro l other hml hlc h
    have := hopen l hml (Nat.le_of_lt hlc)
    have := houter l other h
    omega
  have hfunction : (before program c).function = some f.name :=
    (function_before htrim c f.name).2 ⟨m, hcloses.above, hheads, hopen, hlast⟩
  have hentry : (before program c).scope.function? f.name = some f := by
    obtain ⟨header, hheader, henters⟩ := id henters
    apply entry_before hcloses.above
    rw [before_succ hheader]
    exact henters.2.2
  have howes : (before program c).Owes f.name ↔
      f.result ≠ .void ∧ f.name ∉ (before program c).settled := by
    rw [State.Owes, hfunction, hentry, Option.any_some, decide_eq_true_iff]
    exact and_iff_right rfl
  rw [mem_diagnostics_iff, howes,
    settled_iff htrim henters hzero hcloses.above hopen hlast]
  constructor
  · rintro ⟨-, -, hresult, hno⟩
    refine ⟨hresult, fun l hml hlc hl => ?_⟩
    apply Classical.byContradiction
    intro hshielded
    exact hno (.inr ⟨l, hml, hlc, hl, hshielded⟩)
  · rintro ⟨hresult, hall⟩
    refine ⟨hcloses.brace, by rw [hcloses.innermost, hzero], hresult, ?_⟩
    rintro (hvoid | ⟨l, hml, hlc, hl, hshielded⟩)
    · exact hresult hvoid
    · exact hshielded (hall l hml hlc hl)

/-- Where headers are accepted too, what is told belongs to a function that ends there. -/
theorem exists_closes (haccepts : ∀ l text, program[l]? = some text → "\x7b" ∈ tokenize text →
      Step.Accepts (before program l) text) {name : String}
    (hbrace : program[c]? = some "\x7d") (hdepth : Nesting.before program c = 1)
    (howes : (before program c).Owes name) :
    ∃ m f, f.name = name ∧ Enters program m f ∧ Closes program m c := by
  obtain ⟨m, hlatest⟩ := (function_before htrim c name).1 howes.1
  obtain ⟨text, htext, hheads⟩ := id hlatest.heads
  have hopens := hheads.opens (htrim text (List.mem_of_getElem? htext))
  obtain ⟨f, hname, henters⟩ := (haccepts m text htext hopens).enters hheads
  have hzero := houter m name hlatest.heads
  refine ⟨m, f, hname, ⟨text, htext, henters⟩, hlatest.above, hbrace, ?_, ?_⟩
  · rw [hzero]
    exact hlatest.isOpen
  · rw [hzero, hdepth]

end

/-- A function ends once. -/
theorem Closes.unique {program : List String} {m c c' : Nat} (h : Closes program m c)
    (h' : Closes program m c') : c = c' := by
  have hbehind : ∀ {c c'}, Closes program m c → Closes program m c' → ¬ c < c' := by
    intro c c' h h' hlt
    have hopen := h'.isOpen (c + 1) (Nat.lt_succ_of_lt h.above) hlt
    rw [Nesting.before_succ h.brace, Nesting.behind, if_pos rfl, h.innermost] at hopen
    omega
  exact Nat.le_antisymm (Nat.le_of_not_lt (hbehind h' h)) (Nat.le_of_not_lt (hbehind h h'))

/-- Where every line that opens a block is accepted and headers stand outside of all blocks, a
missing return is told once for a function. -/
theorem length_tells_le_one {program : List String} (htrim : ∀ line ∈ program, trim line = line)
    (houter : ∀ l other, Heads program l other → Nesting.before program l = 0)
    (haccepts : ∀ l text, program[l]? = some text → "\x7b" ∈ tokenize text →
      Step.Accepts (before program l) text) (name : String) :
    ((ofLines program).diagnostics.filter (tellsMissingReturn name)).length ≤ 1 := by
  rw [filter_tells_diagnostics, List.length_map]
  generalize hxs : program.zipIdx.filter _ = xs
  have horder : xs.Pairwise fun p q => p.2 < q.2 := hxs ▸ (pairwise_zipIdx program).filter _
  have hcloses : ∀ p ∈ xs, ∃ m f, f.name = name ∧ Enters program m f ∧ Closes program m p.2 := by
    rintro ⟨text, c⟩ hp
    rw [← hxs] at hp
    obtain ⟨hmem, hp⟩ := List.mem_filter.1 hp
    obtain ⟨rfl, hdepth, howes⟩ := of_decide_eq_true hp
    exact exists_closes htrim houter haccepts (List.mk_mem_zipIdx_iff_getElem?.1 hmem) hdepth howes
  rcases xs with _ | ⟨p, _ | ⟨q, rest⟩⟩
  · exact Nat.zero_le 1
  · exact Nat.le_refl 1
  · -- both braces would close the block of the one header of this name
    obtain ⟨m, f, hf, henters, hp⟩ := hcloses p List.mem_cons_self
    obtain ⟨m', g, hg, henters', hq⟩ := hcloses q (List.mem_cons_of_mem p List.mem_cons_self)
    have hm : m = m' := Nat.le_antisymm (henters.not_above henters' (hg.trans hf.symm))
      (henters'.not_above henters (hf.trans hg.symm))
    subst hm
    have hlt := (List.pairwise_cons.1 horder).1 q List.mem_cons_self
    rw [hp.unique hq] at hlt
    exact absurd hlt (Nat.lt_irrefl q.2)

end Run

/-! ## Functions without a return -/

namespace Run

/-- A header is led by a definition. -/
theorem depth_of_heads {program : List String}
    (h : ∀ p ∈ program.zipIdx, Line.Leads "please define function" p.1 →
      Nesting.before program p.2 = 0) (l : Nat) (other : String) (hheads : Heads program l other) :
    Nesting.before program l = 0 := by
  obtain ⟨text, htext, hheads⟩ := hheads
  exact h (text, l) (List.mk_mem_zipIdx_iff_getElem?.2 htext) hheads.leads

/-- A function `f` with one return, which stands in an inner block. -/
def innerReturn (opening : String) (rest : List String) : List String :=
  "please define function integer f() \x7b" :: opening :: "thank you for returning 1" :: "\x7d" ::
    "\x7d" :: rest

section

variable {opening : String}

theorem enters_innerReturn (opening : String) (rest : List String) :
    Enters (innerReturn opening rest) 0 ⟨"f", .integer, []⟩ := by
  have hl : Token.ofLine "please define function integer f() \x7b" =
      .ok [⟨"please define function", .define, 1⟩, ⟨"integer", .typeName, 24⟩,
        ⟨"f", .identifier, 32⟩, ⟨"(", .openParen, 33⟩, ⟨")", .closeParen, 34⟩,
        ⟨"\x7b", .openBrace, 36⟩] :=
    except_toOption_eq_some.1 (by decide +kernel)
  have hheader : functionHeader [⟨"please define function", .define, 1⟩, ⟨"integer", .typeName, 24⟩,
      ⟨"f", .identifier, 32⟩, ⟨"(", .openParen, 33⟩, ⟨")", .closeParen, 34⟩,
      ⟨"\x7b", .openBrace, 36⟩] = .ok ⟨"f", .integer, []⟩ :=
    except_toOption_eq_some.1 (by decide +kernel)
  exact ⟨_, rfl, ⟨_, [], hl, rfl, rfl⟩, rfl, (Step.entered_ofLine hl rfl hheader rfl).1⟩

theorem depth_innerReturn (hne : opening ≠ "\x7d") (hopens : "\x7b" ∈ tokenize opening)
    (rest : List String) :
    let program := innerReturn opening rest
    Nesting.before program 1 = 1 ∧ Nesting.before program 2 = 2 ∧ Nesting.before program 3 = 2 ∧
      Nesting.before program 4 = 1 := by
  intro program
  have hlines : "\x7b" ∈ tokenize "please define function integer f() \x7b" ∧
      "\x7b" ∉ tokenize "thank you for returning 1" := by
    decide +kernel
  have h1 : Nesting.before program 1 = 1 := by
    rw [Nesting.before_succ rfl, Nesting.behind, Step.opens_eq, if_neg (by decide),
      decide_eq_true hlines.1]
    rfl
  have h2 : Nesting.before program 2 = 2 := by
    rw [Nesting.before_succ rfl, h1, Nesting.behind, Step.opens_eq, if_neg hne,
      decide_eq_true hopens]
    rfl
  have h3 : Nesting.before program 3 = 2 := by
    rw [Nesting.before_succ rfl, h2, Nesting.behind, Step.opens_eq, if_neg (by decide),
      decide_eq_false hlines.2]
    rfl
  refine ⟨h1, h2, h3, ?_⟩
  rw [Nesting.before_succ rfl, h3, Nesting.behind, if_pos rfl]

theorem closes_innerReturn (hne : opening ≠ "\x7d") (hopens : "\x7b" ∈ tokenize opening)
    (rest : List String) : Closes (innerReturn opening rest) 0 4 := by
  obtain ⟨h1, h2, h3, h4⟩ := depth_innerReturn hne hopens rest
  refine ⟨by decide, rfl, fun l hl hl4 => ?_, h4⟩
  have hzero : Nesting.before (innerReturn opening rest) 0 = 0 := rfl
  obtain rfl | rfl | rfl | rfl : l = 1 ∨ l = 2 ∨ l = 3 ∨ l = 4 := by omega
  all_goals omega

theorem eq_two_of_returns {rest : List String} {l : Nat}
    (hlead : ¬ Line.Leads "thank you for returning" opening) (hl : 0 < l) (hl4 : l < 4)
    (h : Returns (innerReturn opening rest) l) : l = 2 := by
  obtain ⟨text, htext, hreturn, -⟩ := h
  obtain rfl | rfl | rfl : l = 1 ∨ l = 2 ∨ l = 3 := by omega
  · cases htext
    exact absurd hreturn hlead
  · rfl
  · cases htext
    exact absurd rfl (hreturn.ne_closing (by decide))

end

end Run

/-- Where headers stand outside of all blocks and every line that opens a block is accepted, a
missing return is told at the brace that closes a function exactly if the function has a result and
no accepted return stands directly in its body. It is told nowhere else, and once for a function. -/
theorem missing_return_iff (input : List String)
    (houter : ∀ n name, Run.Heads (solidLines input) n name →
      Nesting.before (solidLines input) n = 0)
    (haccepts : ∀ n text, (solidLines input)[n]? = some text → "\x7b" ∈ tokenize text →
      Step.Accepts (Run.before (solidLines input) n) text) :
    let program := solidLines input
    let told := (Run.ofLines program).diagnostics
    (∀ m c f, Run.Enters program m f → Run.Closes program m c →
      (Diagnostic.missingReturn f.name (c + 1) ∈ told ↔ f.result ≠ .void ∧
        ∀ l, m < l → l < c → Nesting.before program l = 1 → ¬ Run.Returns program l)) ∧
    (∀ name c, Diagnostic.missingReturn name (c + 1) ∈ told →
      ∃ m f, f.name = name ∧ Run.Enters program m f ∧ Run.Closes program m c) ∧
    ∀ name, (told.filter (Diagnostic.tellsMissingReturn name)).length ≤ 1 := by
  intro program told
  have htrim : ∀ line ∈ program, trim line = line := fun _ => trim_of_mem_solidLines
  refine ⟨fun m c f henters hcloses => ?_, fun name c htold => ?_,
    Run.length_tells_le_one htrim houter haccepts⟩
  · have hheads : Run.Heads program m f.name := henters.imp fun _ h => ⟨h.1, h.2.1⟩
    have hshielded : ∀ l, m < l → l < c →
        (Run.Shielded program l ↔ Nesting.before program l ≠ 1) := by
      intro l hml hlc
      have hopen : Run.StillOpen program m l 1 := by
        intro k hmk hkl
        have := hcloses.isOpen k hmk (Nat.le_trans hkl (Nat.le_of_lt hlc))
        omega
      have hpos := hopen l hml (Nat.le_refl l)
      rw [Run.shielded_iff htrim houter haccepts hheads hml hopen]
      omega
    rw [Run.told_closing htrim houter henters hcloses]
    refine and_congr_right fun _ => ⟨fun h l hml hlc hone hl => ?_, fun h l hml hlc hl => ?_⟩
    · exact (hshielded l hml hlc).1 (h l hml hlc hl) hone
    · exact (hshielded l hml hlc).2 fun hone => h l hml hlc hone hl
  · obtain ⟨hbrace, hdepth, howes⟩ := Run.mem_diagnostics_iff.1 htold
    exact Run.exists_closes htrim houter haccepts hbrace hdepth howes

/-- The return of `f` stands in a control block. -/
theorem missing_return_iff_nested :
    let program := Run.innerReturn "thank you for checking if true \x7b" []
    let told := (Run.ofLines program).diagnostics
    Run.Enters program 0 ⟨"f", .integer, []⟩ ∧ Run.Closes program 0 4 ∧
      Diagnostic.missingReturn "f" 5 ∈ told ∧
      (told.filter (Diagnostic.tellsMissingReturn "f")).length ≤ 1 := by
  intro program told
  obtain ⟨hsolid, hopens, hlead, hlines⟩ :
      solidLines program = program ∧ "\x7b" ∈ tokenize "thank you for checking if true \x7b" ∧
      ¬ Line.Leads "thank you for returning" "thank you for checking if true \x7b" ∧
      ∀ p ∈ program.zipIdx,
        (Line.Leads "please define function" p.1 → Nesting.before program p.2 = 0) ∧
        ("\x7b" ∈ tokenize p.1 →
          Event.diagnostics (Step.ofLine (Run.before program p.2) p.1).events = []) := by
    decide +kernel
  have henters := Run.enters_innerReturn "thank you for checking if true \x7b" []
  have hcloses := Run.closes_innerReturn (by decide) hopens []
  have h := missing_return_iff program
  simp only [hsolid] at h
  obtain ⟨hiff, -, honce⟩ := h (Run.depth_of_heads fun p hp => (hlines p hp).1)
    fun n text htext => (hlines (text, n) (List.mk_mem_zipIdx_iff_getElem?.2 htext)).2
  refine ⟨henters, hcloses, (hiff 0 4 _ henters hcloses).2 ⟨by decide, ?_⟩, honce "f"⟩
  intro l hl hl4 hone hreturns
  rw [Run.eq_two_of_returns hlead hl hl4 hreturns,
    (Run.depth_innerReturn (by decide) hopens []).2.1] at hone
  cases hone

/-- Where headers stand outside of all blocks, a missing return is told at the brace that closes a
function with a result exactly if each of its accepted returns is shielded. So it is told if each of
them stands in an inner block whose opening line is refused but led by a control phrase. -/
theorem missing_return_shielded (input : List String)
    (houter : ∀ n name, Run.Heads (solidLines input) n name →
      Nesting.before (solidLines input) n = 0) :
    let program := solidLines input
    ∀ m c f, Run.Enters program m f → Run.Closes program m c → f.result ≠ .void →
      (Diagnostic.missingReturn f.name (c + 1) ∈ (Run.ofLines program).diagnostics ↔
        ∀ l, m < l → l < c → Run.Returns program l → Run.Shielded program l) ∧
      ((∀ l, m < l → l < c → Run.Returns program l → ∃ k text, m < k ∧ k < l ∧
          program[k]? = some text ∧ "\x7b" ∈ tokenize text ∧
          ¬ Step.Accepts (Run.before program k) text ∧ Line.IsControl text ∧
          Run.StillOpen program k l (Nesting.before program k + 1)) →
        Diagnostic.missingReturn f.name (c + 1) ∈ (Run.ofLines program).diagnostics) := by
  intro program m c f henters hcloses hresult
  have htrim : ∀ line ∈ program, trim line = line := fun _ => trim_of_mem_solidLines
  have htold := Run.told_closing htrim houter henters hcloses
  rw [and_iff_right hresult] at htold
  refine ⟨htold, fun h => htold.2 fun l hml hlc hl => ?_⟩
  obtain ⟨k, text, hmk, hkl, htext, hopens, -, hcontrol, hopen⟩ := h l hml hlc hl
  refine ⟨k, text, hkl, htext, .inr ⟨hopens, hcontrol⟩, fun j hkj hjl => ?_⟩
  have hinner := hcloses.isOpen k hmk (Nat.le_of_lt (Nat.lt_trans hkl hlc))
  have := hopen j hkj hjl
  omega

/-- The condition of the control block is refused, and the return in it does not count. -/
theorem missing_return_shielded_condition :
    let opening := "thank you for checking if x \x7b"
    let program := Run.innerReturn opening []
    Run.Enters program 0 ⟨"f", .integer, []⟩ ∧ Run.Closes program 0 4 ∧ Run.Returns program 2 ∧
      ¬ Step.Accepts (Run.before program 1) opening ∧
      Diagnostic.missingReturn "f" 5 ∈ (Run.ofLines program).diagnostics := by
  intro opening program
  obtain ⟨hsolid, hopens, hlead, hreturn, hcontrol, houter, hacc, hrefused⟩ :
      solidLines program = program ∧ "\x7b" ∈ tokenize opening ∧
      ¬ Line.Leads "thank you for returning" opening ∧
      Line.Leads "thank you for returning" "thank you for returning 1" ∧
      (tokenize opening).head? = some "thank you for checking if" ∧
      (∀ p ∈ program.zipIdx, Line.Leads "please define function" p.1 →
        Nesting.before program p.2 = 0) ∧
      Event.diagnostics
        (Step.ofLine (Run.before program 2) "thank you for returning 1").events = [] ∧
      ¬ Event.diagnostics (Step.ofLine (Run.before program 1) opening).events = [] := by
    decide +kernel
  have henters := Run.enters_innerReturn opening []
  have hne : opening ≠ "\x7d" := by decide
  have hcloses := Run.closes_innerReturn hne hopens []
  obtain ⟨h1, h2, -⟩ := Run.depth_innerReturn hne hopens []
  have h := missing_return_shielded program
  simp only [hsolid] at h
  obtain ⟨-, htold⟩ := h (Run.depth_of_heads houter) 0 4 _ henters hcloses (by decide)
  refine ⟨henters, hcloses, ⟨_, rfl, hreturn, hacc⟩, hrefused, htold ?_⟩
  intro l hl hl4 hreturns
  obtain rfl := Run.eq_two_of_returns hlead hl hl4 hreturns
  refine ⟨1, opening, by decide, by decide, rfl, hopens, hrefused, .inl hcontrol, ?_⟩
  intro k hk hk2
  obtain rfl : k = 2 := by omega
  exact Nat.le_of_eq ((congrArg (· + 1) h1).trans h2.symm)

/-- The opening line of the inner block is refused, but since no control phrase leads it, the return
in it counts, and no missing return is told. -/
theorem refused_block_unshielded :
    let opening := "please check if true \x7b"
    let program := Run.innerReturn opening ["please define function void main() \x7b", "\x7d"]
    (∀ n name, Run.Heads program n name → Nesting.before program n = 0) ∧
      Run.Enters program 0 ⟨"f", .integer, []⟩ ∧ Run.Closes program 0 4 ∧
      (∀ l, 0 < l → l < 4 → Run.Returns program l → l = 2 ∧ Nesting.before program l = 2) ∧
      "\x7b" ∈ tokenize opening ∧ ¬ Step.Accepts (Run.before program 1) opening ∧
      Diagnostic.missingReturn "f" 5 ∉ (Run.ofLines program).diagnostics := by
  intro opening program
  obtain ⟨hopens, hlead, houter, hrefused, hsettled⟩ :
      "\x7b" ∈ tokenize opening ∧ ¬ Line.Leads "thank you for returning" opening ∧
      (∀ p ∈ program.zipIdx, Line.Leads "please define function" p.1 →
        Nesting.before program p.2 = 0) ∧
      ¬ Event.diagnostics (Step.ofLine (Run.before program 1) opening).events = [] ∧
      ¬ (Run.before program 4).Owes "f" := by
    decide +kernel
  refine ⟨Run.depth_of_heads houter, Run.enters_innerReturn _ _,
    Run.closes_innerReturn (by decide) hopens _, fun l hl hl4 hreturns => ?_, hopens, hrefused,
    fun htold => hsettled (Run.mem_diagnostics_iff.1 htold).2.2⟩
  obtain rfl := Run.eq_two_of_returns hlead hl hl4 hreturns
  exact ⟨rfl, (Run.depth_innerReturn (by decide) hopens _).2.1⟩

end Courtesy
