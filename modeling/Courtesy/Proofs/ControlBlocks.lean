import Courtesy.Proofs.Layout
import Courtesy.Proofs.Modularity
import Courtesy.Proofs.Returns

/-!
# Control blocks

Whether a return stands inside of a control block is told by one flag and not by the depth: a line
that opens a control block sets it, and a closing brace sets it anew from the depth that it leaves.
Inside of a function, what the flag says of a line is `Run.Shielded` (`Run.insideControl_iff`). A
return that is accepted while the flag is not set settles its function (`Run.settled_iff`).

Where every line that opens a block is accepted, the inner blocks of a function are control blocks,
and the flag is the depth after all (`Run.shielded_iff`).
-/

namespace Courtesy

open Text Statement

/-! ## Lines that open a control block -/

namespace Line

/-- The line is led by a phrase that starts a control block, whether it is accepted or not. -/
def IsControl (text : String) : Prop :=
  (tokenize text).head? = some "thank you for checking if" ∨
    (tokenize text).head? = some "thank you for looping"

/-- Behind the line, what stands in an inner block counts as inside of a control block: the line
closes a block, or it opens a control block. -/
def Shields (text : String) : Prop := text = "\x7d" ∨ "\x7b" ∈ tokenize text ∧ IsControl text

theorem isControl_iff {text : String} :
    Step.isControl (tokenize text) = true ↔ IsControl text := by
  unfold Step.isControl IsControl
  cases tokenize text with
  | nil => simp
  | cons first rest =>
    simp only [List.head?_cons, Option.some.injEq, Bool.or_eq_true, decide_eq_true_eq]
    constructor
    · rintro (h | h)
      · exact .inl (text_of_check h)
      · exact .inr (text_of_loop h)
    · rintro (rfl | rfl)
      · exact .inl rfl
      · exact .inr rfl

/-- What leads the tokens of a line leads the line. -/
theorem head_of_leads {phrase text : String} (htrim : trim text = text) (h : Leads phrase text) :
    (tokenize text).head? = some phrase := by
  obtain ⟨lead, rest, hl, rfl⟩ := h
  rw [← Token.texts_ofLine htrim hl]
  rfl

theorem not_isControl_of_leads {phrase text : String} (htrim : trim text = text)
    (h : Leads phrase text)
    (hphrase : phrase ∉ ["thank you for checking if", "thank you for looping"]) :
    ¬ IsControl text := by
  unfold IsControl
  rw [head_of_leads htrim h, Option.some.injEq, Option.some.injEq]
  simpa using hphrase

end Line

namespace Step

section

variable {st : State} {text : String}

theorem marked_insideControl :
    (marked st text).insideControl = true ↔
      st.insideControl = true ∨ "\x7b" ∈ tokenize text ∧ Line.IsControl text := by
  unfold marked
  rw [opens_eq, ← Line.isControl_iff]
  by_cases h : "\x7b" ∈ tokenize text <;> by_cases hc : isControl (tokenize text) = true <;>
    simp [h, hc]

/-- A statement line sets the flag if it opens a control block, and keeps it otherwise. -/
theorem insideControl_ofLine (hne : text ≠ "\x7d") (st : State) :
    (ofLine st text).state.insideControl = true ↔
      st.insideControl = true ∨ "\x7b" ∈ tokenize text ∧ Line.IsControl text := by
  have hplace := (perform_reading (marked st text) text).place.insideControl
  rw [← marked_insideControl, ← hplace, ofLine_statement hne]
  generalize perform (marked st text) text = r
  dsimp only
  split <;> exact Iff.rfl

/-- A closing brace sets the flag from the depth that it leaves. -/
theorem insideControl_closing (hc : st.Counted) :
    (ofLine st "\x7d").state.insideControl = true ↔ 2 ≤ st.blocks.length - 1 := by
  cases hb : st.blocks with
  | nil => rw [ofLine_closing_nil hb]; simp [hc.rest hb]
  | cons b outer =>
    rw [ofLine_closing_cons hb, hc.indent, hb]
    simp only [decide_eq_true_eq]
    exact Iff.rfl

/-- An accepted line that opens a block and is no definition opens a control block. -/
theorem Accepts.isControl (hacc : Accepts st text) (htrim : trim text = text)
    (hopens : "\x7b" ∈ tokenize text) (hdef : ¬ Line.Leads "please define function" text) :
    Line.IsControl text := by
  have hne : text ≠ "\x7d" := by
    rintro rfl
    exact absurd hopens (by decide +kernel)
  rw [← decide_eq_true_iff (p := "\x7b" ∈ tokenize text), ← opens_eq] at hopens
  rcases hacc.emitted hne with ⟨hl, -⟩ | ⟨first, rest, st', o, hl, hp, -⟩
  · obtain ⟨t, ht, -⟩ := (Token.opens_iff htrim hl).1 hopens
    cases ht
  · obtain ⟨t, ht, hbrace⟩ := (Token.opens_iff htrim hl).1 hopens
    have hshape := hp.shape (Token.sound_of_ofLine hl)
    obtain ⟨frames, settled, -, hchange, -⟩ := hp.change hl (Line.kind_ne_define hdef hl)
    cases hchange with
    | counts _ hcounts => exact .inr (Line.head_of_leads htrim hcounts.leads)
    | opens _ hlead _ =>
      exact hlead.imp (Line.head_of_leads htrim) (Line.head_of_leads htrim)
    | declares _ =>
      cases hshape with
      | line hno _ => exact absurd hbrace (hno t ht)
    | keeps _ _ _ =>
      cases hshape with
      | line hno _ => exact absurd hbrace (hno t ht)

end

end Step

/-! ## Settled functions -/

namespace Statement

theorem definition_settled {st : State} {tokens : List Token} {header : FunctionHeader}
    (hh : functionHeader tokens = .ok header) :
    (definition st tokens).1.settled =
      setMember header.name (header.result = .void) st.settled := by
  simp only [definition, hh]
  split
  · rfl
  · split
    · rfl
    · split <;> rfl

/-- Of the statements that are no definition, only a return settles the function of the state: it
must be accepted outside of all control blocks, and the function must have a result. -/
theorem Performed.settled {st : State} {tokens : List Token} {kind : Kind} {o : Outcome}
    {f : Signature} (h : Performed st tokens kind o) (hk : kind ≠ .define)
    (hfunction : st.function = some f.name) (hentry : st.scope.function? f.name = some f) :
    f.name ∈ o.state.settled ↔ f.name ∈ st.settled ∨
      kind = .giveBack ∧ (∃ opening, o.result = .ok opening) ∧ f.result ≠ .void ∧
        st.insideControl = false := by
  cases h with
  | defined => exact absurd rfl hk
  | refused _ _ => simp
  | returned hok =>
    obtain ⟨name, g, hname, hg, hstate, -⟩ := returnStatement_checked hok
    rw [hfunction] at hname
    cases hname
    rw [hentry] at hg
    cases hg
    rw [hstate]
    dsimp only
    split
    · rename_i hkept
      rcases hkept with hvoid | hinside
      · simp [hvoid]
      · simp [hinside]
    · rename_i hsettles
      rw [not_or, Bool.not_eq_true] at hsettles
      simp [mem_setMember_self, hsettles.1, hsettles.2]
  | _ => simp

end Statement

namespace Step

section

variable {st : State} {text : String} {f : Signature}

theorem settled_ofLine (hne : text ≠ "\x7d") (st : State) :
    (ofLine st text).state.settled = (perform (marked st text) text).1.state.settled := by
  rw [ofLine_statement hne]
  generalize perform (marked st text) text = r
  dsimp only
  split <;> rfl

theorem settled_closing (st : State) : (ofLine st "\x7d").state.settled = st.settled := by
  cases hb : st.blocks with
  | nil => rw [ofLine_closing_nil hb]
  | cons b outer => rw [ofLine_closing_cons hb]

/-- The first header of a function settles it if it is void. -/
theorem Enters.settled (h : Enters st text f) :
    f.name ∈ (ofLine st text).state.settled ↔ f.result = .void := by
  obtain ⟨first, rest, header, hl, hlead, hh, hname⟩ := Line.heads_iff.1 h.1
  rw [settled_ofLine (ne_closing_of_define hl hlead), (perform_define _ hl hlead).1,
    definition_settled hh, hname, mem_setMember_self, h.entry hl hlead hh, decide_eq_true_iff]

theorem marked_settled (st : State) (text : String) : (marked st text).settled = st.settled := by
  unfold marked
  split <;> rfl

theorem Reading.settled {r : Step × List Param} (h : Reading st text r)
    (hno : ∀ name, ¬ Line.Heads name text) (hfunction : st.function = some f.name)
    (hentry : st.scope.function? f.name = some f) :
    f.name ∈ r.1.state.settled ↔ f.name ∈ st.settled ∨
      Line.Leads "thank you for returning" text ∧ Event.diagnostics r.1.events = [] ∧
        f.result ≠ .void ∧ st.insideControl = false := by
  have hkept : ∀ {first rest o}, Token.ofLine text = .ok (first :: rest) →
      Performed st (first :: rest) first.kind o →
      (f.name ∈ o.state.settled ↔ f.name ∈ st.settled ∨
        Line.Leads "thank you for returning" text ∧ (∃ opening, o.result = .ok opening) ∧
          f.result ≠ .void ∧ st.insideControl = false) := by
    intro first rest o hl hp
    have hgives : first.kind = .giveBack ↔ Line.Leads "thank you for returning" text := by
      constructor
      · intro hk
        have hvalid := (Token.valid_of_ofLine hl first List.mem_cons_self).1
        exact ⟨first, rest, hl, text_of_giveBack (hvalid.symm.trans hk)⟩
      · intro hlead
        exact Line.kind_of_leads hlead hl
    by_cases hk : first.kind = .define
    · have hlead : ¬ Line.Leads "thank you for returning" text := by
        rw [← hgives, hk]
        decide
      simp only [hlead, false_and, or_false]
      rw [hk] at hp
      cases hp with
      | refused _ hne => exact absurd rfl hne
      | defined =>
        cases hh : functionHeader (first :: rest) with
        | error fault => simp only [definition, hh]
        | ok header =>
          exact absurd (Line.heads_iff.2 ⟨first, rest, header, hl, hk, hh, rfl⟩) (hno header.name)
    · rw [hp.settled hk hfunction hentry, hgives]
  cases h with
  | blank hl =>
    refine (or_iff_left ?_).symm
    rintro ⟨⟨_, _, hl', -⟩, -⟩
    rw [hl] at hl'
    cases hl'
  | unread _ _ _ =>
    refine (or_iff_left ?_).symm
    rintro ⟨-, h, -⟩
    cases h
  | rejected _ hl hp =>
    rw [hkept hl hp]
    simp
  | accepted _ hl hp =>
    rw [hkept hl hp]
    simp

/-- A line that is no header settles the function of the state if it is a return that is accepted
outside of all control blocks. -/
theorem settled_kept (htrim : trim text = text) (hne : text ≠ "\x7d")
    (hno : ∀ name, ¬ Line.Heads name text) (hfunction : st.function = some f.name)
    (hentry : st.scope.function? f.name = some f) :
    f.name ∈ (ofLine st text).state.settled ↔ f.name ∈ st.settled ∨
      Line.Leads "thank you for returning" text ∧ Accepts st text ∧ f.result ≠ .void ∧
        st.insideControl = false := by
  rw [settled_ofLine hne, (perform_reading (marked st text) text).settled hno
    (by rwa [marked_function]) (by rwa [marked_scope]), marked_settled, accepts_iff hne]
  refine or_congr_right (and_congr_right fun hlead => ?_)
  -- a return leaves the flag as it is
  have hflag : (marked st text).insideControl = st.insideControl := by
    rw [Bool.eq_iff_iff, marked_insideControl]
    exact or_iff_left fun h => Line.not_isControl_of_leads htrim hlead (by decide) h.2
  rw [hflag]

end

end Step

/-! ## The flag over a run -/

namespace Run

/-- A line that shields stands before the line with index `n`, and the depth has been two or more
ever since. -/
def Shielded (program : List String) (n : Nat) : Prop :=
  ∃ k text, k < n ∧ program[k]? = some text ∧ Line.Shields text ∧ StillOpen program k n 2

/-- The line with index `l` is an accepted return. -/
def Returns (program : List String) (l : Nat) : Prop :=
  ∃ text, program[l]? = some text ∧ Line.Leads "thank you for returning" text ∧
    Step.Accepts (before program l) text

section

variable {program : List String} {m n : Nat} {name : String} {f : Signature}

theorem Shielded.le_depth (h : Shielded program n) : 2 ≤ Nesting.before program n := by
  obtain ⟨k, _, hkn, -, -, hopen⟩ := h
  exact hopen n hkn (Nat.le_refl n)

/-- Behind one more line, what was shielded stays so as long as the depth is two or more, and the
line may shield itself. -/
theorem shielded_succ {text : String} (htext : program[n]? = some text) :
    Shielded program (n + 1) ↔
      2 ≤ Nesting.before program (n + 1) ∧ (Shielded program n ∨ Line.Shields text) := by
  constructor
  · intro h
    refine ⟨h.le_depth, ?_⟩
    obtain ⟨k, text', hkn, htext', hshields, hopen⟩ := h
    rcases Nat.lt_or_eq_of_le (Nat.le_of_lt_succ hkn) with hkn | rfl
    · exact .inl ⟨k, text', hkn, htext', hshields,
        ((stillOpen_succ (Nat.le_of_lt hkn)).1 hopen).1⟩
    · rw [htext] at htext'
      cases htext'
      exact .inr hshields
  · rintro ⟨hdepth, ⟨k, text', hkn, htext', hshields, hopen⟩ | hshields⟩
    · exact ⟨k, text', Nat.lt_succ_of_lt hkn, htext', hshields,
        (stillOpen_succ (Nat.le_of_lt hkn)).2 ⟨hopen, hdepth⟩⟩
    · exact ⟨n, text, Nat.lt_succ_self n, htext, hshields,
        (stillOpen_succ (Nat.le_refl n)).2 ⟨stillOpen_self, hdepth⟩⟩

theorem shielded_succ_of_none (htext : program[n]? = none) :
    Shielded program (n + 1) ↔ Shielded program n := by
  have hdepth := Nesting.before_of_getElem?_none htext
  constructor
  · rintro ⟨k, text, hkn, hk, hshields, hopen⟩
    have hlt : k < n := by
      apply Nat.lt_of_le_of_ne (Nat.le_of_lt_succ hkn)
      rintro rfl
      rw [htext] at hk
      cases hk
    exact ⟨k, text, hlt, hk, hshields, ((stillOpen_succ (Nat.le_of_lt hlt)).1 hopen).1⟩
  · intro h
    have hle := h.le_depth
    obtain ⟨k, text, hkn, hk, hshields, hopen⟩ := h
    exact ⟨k, text, Nat.lt_succ_of_lt hkn, hk, hshields,
      (stillOpen_succ (Nat.le_of_lt hkn)).2 ⟨hopen, hdepth ▸ hle⟩⟩

variable (htrim : ∀ line ∈ program, trim line = line)

include htrim

/-- Right behind a header outside of all blocks nothing is shielded, and the flag is not set. -/
theorem insideControl_header (hheads : Heads program m name)
    (hzero : Nesting.before program m = 0) :
    (before program (m + 1)).insideControl = false ∧ ¬ Shielded program (m + 1) := by
  obtain ⟨text, htext, hline⟩ := hheads
  have hcontrol : ¬ Line.IsControl text :=
    Line.not_isControl_of_leads (htrim text (List.mem_of_getElem? htext)) hline.leads (by decide)
  have hblocks : (before program m).blocks = [] :=
    List.eq_nil_of_length_eq_zero ((blocks_before program m).trans hzero)
  constructor
  · rw [before_succ htext, Bool.eq_false_iff, ne_eq, Step.insideControl_ofLine hline.ne_closing,
      (before_counted program m).rest hblocks]
    simp [hcontrol]
  · rw [shielded_succ htext]
    rintro ⟨-, h | hclosing | ⟨-, h⟩⟩
    · have := h.le_depth
      omega
    · exact hline.ne_closing hclosing
    · exact hcontrol h

/-- As long as a block is open behind a header outside of all blocks, the flag says whether a line
is shielded. -/
theorem insideControl_iff (hheads : Heads program m name) (hzero : Nesting.before program m = 0)
    (hmn : m < n) (hopen : StillOpen program m n 1) :
    (before program n).insideControl = true ↔ Shielded program n := by
  induction hmn with
  | refl =>
    obtain ⟨hflag, hshielded⟩ := insideControl_header htrim hheads hzero
    exact iff_of_false (by rw [hflag]; exact Bool.false_ne_true) hshielded
  | @step n hmn ih =>
    obtain ⟨hopen, -⟩ := (stillOpen_succ (Nat.le_of_lt hmn)).1 hopen
    have hdepth : 1 ≤ Nesting.before program n := hopen n hmn (Nat.le_refl n)
    have ih := ih hopen
    cases htext : program[n]? with
    | none => rw [before_of_getElem?_none htext, shielded_succ_of_none htext, ih]
    | some text =>
      rw [before_succ htext, shielded_succ htext, Nesting.before_succ htext, Nesting.behind]
      by_cases hne : text = "\x7d"
      · subst hne
        rw [Step.insideControl_closing (before_counted program n), blocks_before, if_pos rfl]
        exact (and_iff_left (.inr (.inl rfl))).symm
      · rw [Step.insideControl_ofLine hne, if_neg hne, Step.opens_eq, ih, Line.Shields,
          or_iff_right hne]
        -- a line that shields opens a block, and what is shielded stands at depth two or more
        refine (and_iff_right_of_imp ?_).symm
        rintro (h | ⟨h, -⟩)
        · have := h.le_depth
          split <;> omega
        · rw [if_pos (decide_eq_true h)]
          omega

/-- A function is settled if it is void, or if a return has been accepted behind its header that was
not shielded. -/
theorem settled_iff (henters : Enters program m f) (hzero : Nesting.before program m = 0)
    (hmn : m < n) (hopen : StillOpen program m n 1)
    (hlast : ∀ l other, m < l → l < n → ¬ Heads program l other) :
    f.name ∈ (before program n).settled ↔
      f.result = .void ∨ ∃ l, m < l ∧ l < n ∧ Returns program l ∧ ¬ Shielded program l := by
  obtain ⟨header, hheader, henters⟩ := henters
  have hheads : Heads program m f.name := ⟨header, hheader, henters.1⟩
  induction hmn with
  | refl =>
    rw [before_succ hheader, henters.settled]
    refine (or_iff_left ?_).symm
    rintro ⟨l, hml, hlm, -⟩
    omega
  | @step n hmn ih =>
    obtain ⟨hopen, -⟩ := (stillOpen_succ (Nat.le_of_lt hmn)).1 hopen
    have hlast' : ∀ l other, m < l → l < n → ¬ Heads program l other :=
      fun l other hml hln => hlast l other hml (Nat.lt_succ_of_lt hln)
    have ih : f.name ∈ (before program n).settled ↔
        f.result = .void ∨ ∃ l, m < l ∧ l < n ∧ Returns program l ∧ ¬ Shielded program l :=
      ih hopen hlast'
    have hsucc : (∃ l, m < l ∧ l < n + 1 ∧ Returns program l ∧ ¬ Shielded program l) ↔
        (∃ l, m < l ∧ l < n ∧ Returns program l ∧ ¬ Shielded program l) ∨
          Returns program n ∧ ¬ Shielded program n := by
      constructor
      · rintro ⟨l, hml, hln, hl⟩
        rcases Nat.lt_or_eq_of_le (Nat.le_of_lt_succ hln) with hln | rfl
        · exact .inl ⟨l, hml, hln, hl⟩
        · exact .inr hl
      · rintro (⟨l, hml, hln, hl⟩ | hl)
        · exact ⟨l, hml, Nat.lt_succ_of_lt hln, hl⟩
        · exact ⟨n, hmn, Nat.lt_succ_self n, hl⟩
    rw [hsucc, ← or_assoc, ← ih]
    cases htext : program[n]? with
    | none =>
      rw [before_of_getElem?_none htext]
      refine (or_iff_left ?_).symm
      rintro ⟨⟨_, h, -⟩, -⟩
      rw [htext] at h
      cases h
    | some text =>
      have hreturns : Returns program n ↔ Line.Leads "thank you for returning" text ∧
          Step.Accepts (before program n) text := by
        unfold Returns
        rw [htext]
        simp
      rw [before_succ htext, hreturns]
      by_cases hne : text = "\x7d"
      · subst hne
        rw [Step.settled_closing]
        refine (or_iff_left ?_).symm
        rintro ⟨⟨hlead, -⟩, -⟩
        exact hlead.ne_closing (by decide) rfl
      · have hfunction : (before program n).function = some f.name :=
          (function_before htrim n f.name).2 ⟨m, hmn, hheads, hopen, hlast'⟩
        have hentry : (before program n).scope.function? f.name = some f := by
          apply entry_before hmn
          rw [before_succ hheader]
          exact henters.2.2
        rw [Step.settled_kept (htrim text (List.mem_of_getElem? htext)) hne
            (fun name h => hlast n name hmn (Nat.lt_succ_self n) ((heads_iff htext).2 h))
            hfunction hentry,
          ← insideControl_iff htrim hheads hzero hmn hopen, Bool.not_eq_true]
        by_cases hvoid : f.result = .void
        · simp [ih, hvoid]
        · simp [hvoid, and_assoc]

/-- Where every line that opens a block is accepted and headers stand outside of all blocks, the
inner blocks are control blocks, and what stands in them is shielded. -/
theorem shielded_iff (houter : ∀ l other, Heads program l other → Nesting.before program l = 0)
    (haccepts : ∀ l text, program[l]? = some text → "\x7b" ∈ tokenize text →
      Step.Accepts (before program l) text)
    (hheads : Heads program m name) (hmn : m < n) (hopen : StillOpen program m n 1) :
    Shielded program n ↔ 2 ≤ Nesting.before program n := by
  refine ⟨Shielded.le_depth, ?_⟩
  induction hmn with
  | refl =>
    intro hdepth
    rw [hheads.depth htrim, houter m name hheads] at hdepth
    omega
  | @step n hmn ih =>
    obtain ⟨hopen, -⟩ := (stillOpen_succ (Nat.le_of_lt hmn)).1 hopen
    have hpos : 1 ≤ Nesting.before program n := hopen n hmn (Nat.le_refl n)
    intro hdepth
    cases htext : program[n]? with
    | none =>
      rw [Nesting.before_of_getElem?_none htext] at hdepth
      exact (shielded_succ_of_none htext).2 (ih hopen hdepth)
    | some text =>
      refine (shielded_succ htext).2 ⟨hdepth, ?_⟩
      rw [Nesting.before_succ htext, Nesting.behind, Step.opens_eq] at hdepth
      by_cases hne : text = "\x7d"
      · exact .inr (.inl hne)
      · by_cases hopens : "\x7b" ∈ tokenize text
        · have hacc := haccepts n text htext hopens
          refine .inr (.inr ⟨hopens, ?_⟩)
          refine hacc.isControl (htrim text (List.mem_of_getElem? htext)) hopens ?_
          -- an accepted definition would be a header inside of a block
          rintro ⟨first, rest, hl, hfirst⟩
          have hlead : first.kind = .define := Line.kind_of_leads ⟨first, rest, hl, hfirst⟩ hl
          obtain ⟨header, hh, -⟩ := hacc.header hl hlead
          have := houter n header.name
            ⟨text, htext, Line.heads_iff.2 ⟨first, rest, header, hl, hlead, hh, rfl⟩⟩
          omega
        · rw [if_neg hne, decide_eq_false hopens] at hdepth
          exact .inl (ih hopen hdepth)

end

end Run

end Courtesy
