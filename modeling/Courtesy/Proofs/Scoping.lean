import Courtesy.Proofs.Lines

/-!
# Lexical scoping

What can be named inside a function is told by the program text: the parameters of its header, and
what accepted lines have declared in blocks that are still open (`visible_in_function`).

A frame belongs to a level: the parameters to level zero, the body of the function to level one, and
so on. `Run.Bound` says declaratively what is bound at a level, and the frames of the translation
hold just that, level by level (`Run.fits_function`). No name is bound twice
(`Scope.Built.distinct`), so that what a frame holds is what looking up finds.
-/

namespace Courtesy

open Statement

/-! ## Lines that declare -/

namespace Step

/-- What a line does to the innermost frame, and what the block that it opens starts with. -/
structure Declared (text : String) (frame : Variables) (outer : List Variables)
    (r : Step × List Param) : Prop where
  frames : ∃ inner, r.1.state.scope.frames = inner :: outer ∧
    ∀ x t, (x, t) ∈ inner ↔ (x, t) ∈ frame ∨
      (Event.diagnostics r.1.events = [] ∧ Line.Declares text x t)
  vars : ∀ x t, (⟨x, t⟩ : Param) ∈ r.2 ↔
    Event.diagnostics r.1.events = [] ∧ Line.Counts text ∧ x = counter ∧ t = .integer

variable {text : String} {frame : Variables} {outer : List Variables} {r : Step × List Param}
  {st : State}

/-- A line that declares nothing leaves the frames alone. -/
theorem Declared.of_none (hf : r.1.state.scope.frames = frame :: outer) (hv : r.2 = [])
    (hn : Event.diagnostics r.1.events = [] →
      (∀ x t, ¬ Line.Declares text x t) ∧ ¬ Line.Counts text) :
    Declared text frame outer r := by
  refine ⟨⟨frame, hf, fun x t => ?_⟩, fun x t => ?_⟩
  · constructor
    · exact .inl
    · rintro (h | ⟨he, hd⟩)
      · exact h
      · exact absurd hd ((hn he).1 x t)
  · rw [hv]
    constructor
    · intro h
      cases h
    · rintro ⟨he, hc, -⟩
      exact absurd hc (hn he).2

/-- A line that is led by no definition. -/
theorem Reading.declared (h : Reading st text r)
    (hdef : ¬ Line.Leads "please define function" text) (hf : st.scope.frames = frame :: outer) :
    Declared text frame outer r := by
  have notBoth : ∀ {phrase phrase'}, Line.Leads phrase text → phrase ≠ phrase' →
      ¬ Line.Leads phrase' text := fun h hne h' => hne (h.unique h')
  cases h.simple hdef with
  | blank hl =>
    have notLead : ∀ {phrase}, ¬ Line.Leads phrase text := by
      rintro phrase ⟨lead, rest, hl', -⟩
      rw [hl] at hl'
      cases hl'
    exact .of_none hf rfl fun _ => ⟨fun x t hd => notLead hd.leads, fun hc => notLead hc.leads⟩
  | refused d infos => exact .of_none hf rfl fun he => by cases he
  | carried info hstate hl hp hchange hsettled =>
    subst hstate
    cases hchange with
    | @declares y u line hd =>
      refine ⟨⟨(y, u) :: frame, by rw [hf]; rfl, fun x t => ?_⟩, fun x t => ?_⟩
      · rw [List.mem_cons, or_comm]
        refine or_congr Iff.rfl ⟨?_, ?_⟩
        · intro heq
          cases heq
          exact ⟨rfl, hd⟩
        · rintro ⟨-, hd'⟩
          obtain ⟨rfl, rfl⟩ := hd'.unique hd
          rfl
      · constructor
        · intro hm
          cases hm
        · rintro ⟨-, hc, -⟩
          exact absurd hc.leads (notBoth hd.leads (by decide))
    | counts _ hc =>
      refine ⟨⟨frame, hf, fun x t => ⟨.inl, ?_⟩⟩, fun x t => ?_⟩
      · rintro (hm | ⟨-, hd⟩)
        · exact hm
        · exact absurd hd.leads (notBoth hc.leads (by decide))
      · rw [List.mem_singleton, Param.mk.injEq]
        exact ⟨fun h => ⟨rfl, hc, h⟩, fun h => h.2.2⟩
    | opens _ hlead hcounts =>
      refine .of_none hf rfl fun _ => ⟨fun x t hd => ?_, hcounts⟩
      rcases hlead with hlead | hlead
      · exact notBoth hlead (by decide) hd.leads
      · exact notBoth hlead (by decide) hd.leads
    | keeps hcreate hloop _ =>
      exact .of_none hf rfl fun _ => ⟨fun x t hd => hcreate hd.leads, fun hc => hloop hc.leads⟩

theorem Reading.vars (h : Reading st text r) : r.2 = [] ∨ r.2 = [⟨counter, .integer⟩] := by
  cases h with
  | accepted _ _ hp => exact hp.vars.imp_right fun h => h.1
  | _ => exact .inl rfl

/-- The frames behind a statement line that defines no function. -/
theorem frames_ofLine (h : text ≠ "\x7d") (hdef : ¬ Line.Leads "please define function" text)
    (hf : st.scope.frames = frame :: outer) :
    ∃ inner, (∀ x t, (x, t) ∈ inner ↔
        (x, t) ∈ frame ∨ (Accepts st text ∧ Line.Declares text x t)) ∧
      if opens (tokenize text) then
        ∃ new, (ofLine st text).state.scope.frames = new :: inner :: outer ∧
          ∀ x t, (x, t) ∈ new ↔ Accepts st text ∧ Line.Counts text ∧ x = counter ∧ t = .integer
      else (ofLine st text).state.scope.frames = inner :: outer := by
  have hr := perform_reading (marked st text) text
  have hd := hr.declared hdef (by rwa [marked_scope])
  have hv := hr.vars
  rw [accepts_iff h, ofLine_statement h]
  generalize perform (marked st text) text = r at hd hv ⊢
  obtain ⟨⟨inner, hi, hmem⟩, hvars⟩ := hd
  refine ⟨inner, hmem, ?_⟩
  dsimp only
  split
  · rcases hv with hv | hv
    · refine ⟨[], ?_, fun x t => ?_⟩
      · simp only [State.openBlock, hv]
        exact congrArg ([] :: ·) hi
      · rw [← hvars, hv]
        simp
    · refine ⟨[(counter, .integer)], ?_, fun x t => ?_⟩
      · simp only [State.openBlock, hv]
        exact congrArg ([(counter, .integer)] :: ·) hi
      · rw [← hvars, hv]
        simp
  · exact hi

end Step

/-! ## Headers that declare -/

namespace Statement

/-- Tokens taken in pairs of a type and a name. -/
def paramPairs : List Token → List Param
  | typeToken :: nameToken :: rest =>
    ⟨nameToken.text, (ValueType.ofName? typeToken.text).getD .invalid⟩ :: paramPairs rest
  | _ => []

/-- Parameters without a fault are the pairs between the commas. -/
theorem params_listed {s : Scope} {first : Bool} {tokens : List Token}
    (h : (params s first tokens).fault? = none) :
    (params s first tokens).params = paramPairs (tokens.filter (·.kind ≠ .comma)) := by
  have pair : ∀ {s : Scope} {a b : Token} {p : Param} {rest : List Token}, param s a b = .ok p →
      paramPairs ((a :: b :: rest).filter (·.kind ≠ .comma))
        = p :: paramPairs (rest.filter (·.kind ≠ .comma)) := by
    intro s a b p rest hp
    obtain ⟨ha, hb, -, -, -, rfl⟩ := param_ok hp
    simp [ha, hb, paramPairs]
  fun_induction params s first tokens with
  | case1 s first => rfl
  | case6 s first a b hc c rest p hp more ih =>
    have hcomma : a.kind = .comma := by simpa using (Bool.and_eq_true_iff.1 hc).2
    rw [List.filter_cons_of_neg (by simp [hcomma]), pair hp]
    exact congrArg (p :: ·) (ih h)
  | case8 s first a b rest hc p hp more ih =>
    rw [pair hp]
    exact congrArg (p :: ·) (ih h)
  | _ => cases h

theorem params_frames {s : Scope} {frame : Variables} {outer : List Variables}
    (hf : s.frames = frame :: outer) (first : Bool) (tokens : List Token) :
    ∃ inner, (params s first tokens).scope.frames = inner :: outer ∧
      ∀ x t, (x, t) ∈ inner ↔ (x, t) ∈ frame ∨ ⟨x, t⟩ ∈ (params s first tokens).params := by
  have step : ∀ {s : Scope} {frame : Variables}, s.frames = frame :: outer → ∀ {a b : Token}
      {p : Param}, param s a b = .ok p → (s.declare p.name p.type).frames
        = ((p.name, p.type) :: frame) :: outer := by
    intro s frame hf a b p hp
    rw [Scope.declare_fresh (param_ok hp).2.2.1, hf]
    rfl
  have more : ∀ {inner frame : Variables} {p : Param} {ps : List Param},
      (∀ x t, (x, t) ∈ inner ↔ (x, t) ∈ (p.name, p.type) :: frame ∨ ⟨x, t⟩ ∈ ps) →
      ∀ x t, (x, t) ∈ inner ↔ (x, t) ∈ frame ∨ ⟨x, t⟩ ∈ p :: ps := by
    intro inner frame p ps h x t
    have hp : (⟨x, t⟩ : Param) = p ↔ (x, t) = (p.name, p.type) := by
      cases p
      simp
    rw [h, List.mem_cons, List.mem_cons, hp]
    exact ⟨fun h => by rcases h with (h | h) | h <;> simp [h],
      fun h => by rcases h with h | h | h <;> simp [h]⟩
  fun_induction params s first tokens generalizing frame with
  | case6 s first a b hc c rest p hp =>
    rename_i ih
    obtain ⟨inner, hi, hm⟩ := ih (step hf hp)
    exact ⟨inner, hi, more hm⟩
  | case8 s first a b rest hc p hp =>
    rename_i ih
    obtain ⟨inner, hi, hm⟩ := ih (step hf hp)
    exact ⟨inner, hi, more hm⟩
  | _ => exact ⟨frame, hf, by simp⟩

/-- The frames behind an accepted header: its parameters, and nothing from before. -/
theorem definition_frames {st : State} {tokens : List Token} {o : Opening}
    (hok : (definition st tokens).2 = .ok o) :
    o.vars = [] ∧ ∃ lead result name paren inner close brace frame,
      tokens = lead :: result :: name :: paren :: (inner ++ [close, brace]) ∧
        (definition st tokens).1.scope.frames = [frame] ∧
          ∀ x t, (x, t) ∈ frame ↔ ⟨x, t⟩ ∈ paramPairs (inner.filter (·.kind ≠ .comma)) := by
  obtain ⟨h, hh, -, hfault, hscope, rfl⟩ := definition_ok hok
  obtain ⟨lead, result, name, paren, close, brace, htokens, -⟩ := functionHeader_iff.1 hh
  obtain ⟨frame, hframe, hm⟩ := params_frames (s := st.scope.enterFunction) rfl true h.paramTokens
  refine ⟨rfl, lead, result, name, paren, h.paramTokens, close, brace, frame, htokens, ?_, ?_⟩
  · rw [hscope]
    exact hframe
  · intro x t
    rw [hm, params_listed hfault]
    simp

end Statement

/-- The line reads `please define function TYPE NAME ( ... ) {` and the given name is among the
parameters. -/
def Line.Lists (text x : String) (t : ValueType) : Prop :=
  ∃ lead result name paren inner close brace,
    Token.ofLine text = .ok (lead :: result :: name :: paren :: (inner ++ [close, brace])) ∧
      ⟨x, t⟩ ∈ paramPairs (inner.filter (·.kind ≠ .comma))

namespace Step

theorem frames_ofLine_header {st : State} {header : String}
    (hlead : Line.Leads "please define function" header) (hacc : Accepts st header)
    (hopen : opens (tokenize header) = true) :
    ∃ frame, (ofLine st header).state.scope.frames = [[], frame] ∧
      ∀ x t, (x, t) ∈ frame ↔ Line.Lists header x t := by
  have hkind {first : Token} {rest : List Token} (hl : Token.ofLine header = .ok (first :: rest)) :
      first.kind = .define := Line.kind_of_leads hlead hl
  obtain ⟨lead, rest, hl, -⟩ := hlead
  have hne : header ≠ "\x7d" := by
    rintro rfl
    cases hkind Token.ofLine_closeBrace
  obtain ⟨st', o, info, hp, hperform⟩ := hacc.performed hne hl
  rw [ofLine_statement hne, hperform, hopen]
  dsimp only
  rw [if_pos rfl]
  rw [hkind hl] at hp
  generalize ho : (⟨st', .ok o⟩ : Outcome) = outcome at hp
  cases hp with
  | refused _ hd => exact absurd rfl hd
  | defined =>
    simp only [Outcome.mk.injEq] at ho
    obtain ⟨hvars, _, _, _, _, inner, _, _, frame, htokens, hframes, hmem⟩ :=
      definition_frames ho.2.symm
    rw [htokens] at hl
    refine ⟨frame, ?_, fun x t => (hmem x t).trans ⟨?_, ?_⟩⟩
    · rw [hvars, ho.1]
      show [] :: (definition _ _).1.scope.frames = _
      rw [hframes]
    · intro hm
      exact ⟨_, _, _, _, inner, _, _, hl, hm⟩
    · rintro ⟨_, _, _, _, inner', _, _, hl', hm⟩
      rw [hl] at hl'
      simp only [Except.ok.injEq, List.cons.injEq] at hl'
      rw [(List.append_inj' hl'.2.2.2.2 rfl).1]
      exact hm

end Step

/-! ## Levels -/

/-- The frames hold what is bound at their levels, the outermost frame at level zero. -/
def Scope.Hold (bound : Nat → String → ValueType → Prop) : List Variables → Prop
  | [] => True
  | frame :: outer => (∀ x t, (x, t) ∈ frame ↔ bound outer.length x t) ∧ Hold bound outer

theorem Scope.Hold.congr {bound bound' : Nat → String → ValueType → Prop}
    {frames : List Variables} (h : Hold bound frames)
    (hb : ∀ level < frames.length, ∀ x t, bound level x t ↔ bound' level x t) :
    Hold bound' frames := by
  induction frames with
  | nil => trivial
  | cons frame outer ih =>
    refine ⟨fun x t => ?_, ih h.2 fun level hl => hb level (Nat.lt_succ_of_lt hl)⟩
    rw [h.1, hb outer.length (Nat.lt_succ_self _)]

theorem Scope.Hold.mem_flatten {bound : Nat → String → ValueType → Prop} {frames : List Variables}
    (h : Hold bound frames) (x : String) (t : ValueType) :
    (x, t) ∈ frames.flatten ↔ ∃ level < frames.length, bound level x t := by
  induction frames with
  | nil => simp
  | cons frame outer ih =>
    rw [List.flatten_cons, List.mem_append, h.1, ih h.2]
    constructor
    · rintro (hb | ⟨level, hl, hb⟩)
      · exact ⟨outer.length, Nat.lt_succ_self _, hb⟩
      · exact ⟨level, Nat.lt_succ_of_lt hl, hb⟩
    · rintro ⟨level, hl, hb⟩
      rcases Nat.lt_or_eq_of_le (Nat.le_of_lt_succ hl) with hl | rfl
      · exact .inr ⟨level, hl, hb⟩
      · exact .inl hb

namespace Run

/-- A block at a level that is open behind the line with index `m` is still open before the line
with index `n`. -/
def StillOpen (program : List String) (m n level : Nat) : Prop :=
  ∀ l, m < l → l ≤ n → level ≤ Nesting.before program l

/-- The line with index `m` is accepted and introduces a variable: a declaration in the block in
which it stands, a counting loop in the block that it opens. -/
def Introduces (program : List String) (m level : Nat) (x : String) (t : ValueType) : Prop :=
  ∃ text, program[m]? = some text ∧ Step.Accepts (before program m) text ∧
    ((Line.Declares text x t ∧ level = Nesting.before program m) ∨
      (Line.Counts text ∧ (x = counter ∧ t = .integer) ∧ level = Nesting.before program m + 1))

/-- What is bound at a level before the line with index `n`, in a function whose header has the
index `k`. -/
def Bound (program : List String) (k : Nat) (header : String) (n level : Nat) (x : String)
    (t : ValueType) : Prop :=
  (level = 0 ∧ Line.Lists header x t) ∨
    ∃ m, k < m ∧ m < n ∧ Introduces program m level x t ∧ StillOpen program m n level

section

variable {program : List String} {k n level : Nat} {header : String} {x : String}
  {t : ValueType}

/-- One more line adds what it introduces, as far as the blocks stay open. -/
theorem bound_succ (hk : k < n) (hl : level ≤ Nesting.before program (n + 1)) :
    Bound program k header (n + 1) level x t ↔
      Bound program k header n level x t ∨ Introduces program n level x t := by
  constructor
  · rintro (hp | ⟨m, hkm, hmn, hi, hs⟩)
    · exact .inl (.inl hp)
    · rcases Nat.lt_or_eq_of_le (Nat.le_of_lt_succ hmn) with hmn | rfl
      · exact .inl (.inr ⟨m, hkm, hmn, hi, fun l hml hln => hs l hml (Nat.le_succ_of_le hln)⟩)
      · exact .inr hi
  · rintro ((hp | ⟨m, hkm, hmn, hi, hs⟩) | hi)
    · exact .inl hp
    · refine .inr ⟨m, hkm, Nat.lt_succ_of_lt hmn, hi, fun l hml hln => ?_⟩
      rcases Nat.lt_or_eq_of_le hln with hln | rfl
      · exact hs l hml (Nat.le_of_lt_succ hln)
      · exact hl
    · refine .inr ⟨n, hk, Nat.lt_succ_self n, hi, fun l hnl hln => ?_⟩
      obtain rfl : l = n + 1 := by omega
      exact hl

/-- Nothing is bound above the depth. -/
theorem not_bound_above (hl : Nesting.before program n < level) :
    ¬ Bound program k header n level x t := by
  rintro (⟨rfl, -⟩ | ⟨m, -, hmn, -, hs⟩)
  · exact Nat.not_lt_zero _ hl
  · exact Nat.not_le_of_lt hl (hs n hmn (Nat.le_refl n))

theorem introduces_iff {text : String} (h : program[n]? = some text) :
    Introduces program n level x t ↔ Step.Accepts (before program n) text ∧
      ((Line.Declares text x t ∧ level = Nesting.before program n) ∨
        (Line.Counts text ∧ (x = counter ∧ t = .integer) ∧
          level = Nesting.before program n + 1)) := by
  constructor
  · rintro ⟨text', h', hi⟩
    rw [h] at h'
    cases h'
    exact hi
  · intro hi
    exact ⟨text, h, hi⟩

theorem not_introduces_closing (h : program[n]? = some "\x7d") :
    ¬ Introduces program n level x t := by
  rw [introduces_iff h]
  rintro ⟨-, ⟨⟨_, _, _, _, hl, -⟩, -⟩ | ⟨⟨_, _, _, hl, -⟩, -⟩⟩ <;>
  · rw [Token.ofLine_closeBrace] at hl
    cases hl

/-- The frames fit the blocks that are open and hold what is bound in them. -/
def Fits (program : List String) (k : Nat) (header : String) (n : Nat) : Prop :=
  (before program n).scope.frames.length = Nesting.before program n + 1 ∧
    Scope.Hold (Bound program k header n) (before program n).scope.frames

theorem fits_closing (hk : k < n) (h : program[n]? = some "\x7d")
    (hopen : Nesting.before program n ≠ 0) (hfits : Fits program k header n) :
    Fits program k header (n + 1) := by
  obtain ⟨hlen, hold⟩ := hfits
  obtain ⟨frame, outer, hframes⟩ := List.exists_cons_of_length_eq_add_one hlen
  rw [hframes] at hold hlen
  rw [List.length_cons, Nat.add_right_cancel_iff] at hlen
  have hblocks := blocks_before program n
  obtain ⟨b, blocks, hb⟩ := List.exists_cons_of_ne_nil
    (show (before program n).blocks ≠ [] by intro hb; rw [hb] at hblocks; exact hopen hblocks.symm)
  have hsucc : Nesting.before program (n + 1) = Nesting.before program n - 1 := by
    rw [Nesting.before_succ h, Nesting.behind, if_pos rfl]
  have hpop : (before program (n + 1)).scope.frames = outer := by
    rw [before_succ h, Step.ofLine_closing_cons hb]
    exact congrArg List.tail hframes
  refine ⟨?_, ?_⟩
  · rw [hpop, hsucc]
    omega
  · rw [hpop]
    refine hold.2.congr fun level hl x t => ?_
    rw [bound_succ hk (by omega), or_iff_left (not_introduces_closing h)]

theorem fits_statement (hk : k < n) {text : String} (h : program[n]? = some text)
    (hne : text ≠ "\x7d") (hdef : ¬ Line.Leads "please define function" text)
    (hfits : Fits program k header n) : Fits program k header (n + 1) := by
  obtain ⟨hlen, hold⟩ := hfits
  obtain ⟨frame, outer, hframes⟩ := List.exists_cons_of_length_eq_add_one hlen
  rw [hframes] at hold hlen
  rw [List.length_cons, Nat.add_right_cancel_iff] at hlen
  obtain ⟨inner, hinner, hafter⟩ := Step.frames_ofLine hne hdef hframes
  rw [← before_succ h] at hafter
  have hsucc : Nesting.before program (n + 1) =
      if Step.opens (tokenize text) then Nesting.before program n + 1
      else Nesting.before program n := by
    rw [Nesting.before_succ h, Nesting.behind, if_neg hne]
  have hle : outer.length ≤ Nesting.before program (n + 1) := by
    rw [hsucc]
    split <;> omega
  -- the line can add to the frame of the block in which it stands, not to those around it
  have hrest : Scope.Hold (Bound program k header (n + 1)) (inner :: outer) := by
    refine ⟨fun x t => ?_, hold.2.congr fun level hl x t => ?_⟩
    · rw [bound_succ hk hle, hinner, hold.1, introduces_iff h, ← hlen]
      simp
    · have hno : ¬ Introduces program n level x t := by
        rw [introduces_iff h]
        omega
      rw [bound_succ hk (by omega), or_iff_left hno]
  split at hafter
  · rename_i hopens
    rw [hopens, if_pos rfl] at hsucc
    obtain ⟨new, hnew, hmem⟩ := hafter
    refine ⟨by rw [hnew, hsucc, ← hlen]; rfl, ?_⟩
    rw [hnew]
    refine ⟨fun x t => ?_, hrest⟩
    have hlevel : (inner :: outer).length = Nesting.before program n + 1 := by
      rw [List.length_cons, hlen]
    rw [hlevel, bound_succ hk (Nat.le_of_eq hsucc.symm), hmem, introduces_iff h,
      or_iff_right (not_bound_above (Nat.lt_succ_self _))]
    simp
  · rename_i hopens
    rw [if_neg hopens] at hsucc
    exact ⟨by rw [hafter, hsucc, ← hlen]; rfl, hafter ▸ hrest⟩

theorem fits_header (h : program[k]? = some header) (hzero : Nesting.before program k = 0)
    (hlead : Line.Leads "please define function" header)
    (haccepted : Step.Accepts (before program k) header)
    (hopen : Nesting.before program (k + 1) ≠ 0) : Fits program k header (k + 1) := by
  have hsucc := Nesting.before_succ h
  rw [hzero, Nesting.behind] at hsucc
  have hopens : Step.opens (tokenize header) = true := by
    cases ho : Step.opens (tokenize header) with
    | true => rfl
    | false =>
      rw [ho] at hsucc
      split at hsucc <;> exact absurd hsucc hopen
  obtain ⟨frame, hframes, hmem⟩ := Step.frames_ofLine_header hlead haccepted hopens
  have hdepth : Nesting.before program (k + 1) = 1 := by
    rw [hopens] at hsucc
    split at hsucc
    · exact absurd hsucc hopen
    · exact hsucc
  have hstart : ∀ level x t, Bound program k header (k + 1) level x t ↔
      level = 0 ∧ Line.Lists header x t := by
    intro level x t
    refine or_iff_left ?_
    rintro ⟨m, hkm, hmk, -⟩
    omega
  rw [Fits, before_succ h, hframes, hdepth]
  refine ⟨rfl, fun x t => ?_, fun x t => ?_, trivial⟩
  · simp [hstart]
  · simp [hstart, hmem]

/-- The frames fit before every line of a function. -/
theorem fits_function (h : program[k]? = some header) (hzero : Nesting.before program k = 0)
    (hlead : Line.Leads "please define function" header)
    (haccepted : Step.Accepts (before program k) header) (hk : k < n) (hn : n ≤ program.length)
    (hinside : ∀ m, k < m → m ≤ n → Nesting.before program m ≠ 0)
    (hdef : ∀ m text, k < m → m < n → program[m]? = some text →
      ¬ Line.Leads "please define function" text) : Fits program k header n := by
  induction n with
  | zero => exact absurd hk (Nat.not_lt_zero k)
  | succ n ih =>
    rcases Nat.lt_or_eq_of_le (Nat.le_of_lt_succ hk) with hk | rfl
    · have hfits := ih hk (Nat.le_of_succ_le hn)
        (fun m hkm hmn => hinside m hkm (Nat.le_succ_of_le hmn))
        (fun m text hkm hmn => hdef m text hkm (Nat.lt_succ_of_lt hmn))
      obtain ⟨text, htext⟩ : ∃ text, program[n]? = some text :=
        ⟨program[n], List.getElem?_eq_getElem hn⟩
      by_cases hclose : text = "\x7d"
      · subst hclose
        exact fits_closing hk htext (hinside n hk (Nat.le_succ n)) hfits
      · exact fits_statement hk htext hclose (hdef n text hk (Nat.lt_succ_self n) htext) hfits
    · exact fits_header h hzero hlead haccepted (hinside _ hk (Nat.le_refl _))

end

end Run

/-- Inside a function, behind an accepted header outside of all blocks and as long as no other
definition is begun, just these names can be seen: the parameters, what accepted lines since the
header have declared in blocks that are still open, and the counters of accepted counting loops
whose blocks are still open. -/
theorem visible_in_function {program : List String} {k n : Nat} {header : String}
    (h : program[k]? = some header) (hzero : Nesting.before program k = 0)
    (hlead : Line.Leads "please define function" header)
    (haccepted : Step.Accepts (Run.before program k) header) (hk : k < n)
    (hn : n ≤ program.length) (hinside : ∀ m, k < m → m ≤ n → Nesting.before program m ≠ 0)
    (hdef : ∀ m text, k < m → m < n → program[m]? = some text →
      ¬ Line.Leads "please define function" text) (x : String) (t : ValueType) :
    (Run.before program n).scope.visible.lookup x = some t ↔
      Line.Lists header x t ∨
      ∃ m text, k < m ∧ m < n ∧ program[m]? = some text ∧
        Step.Accepts (Run.before program m) text ∧
        ((Line.Declares text x t ∧ Run.StillOpen program m n (Nesting.before program m)) ∨
          (Line.Counts text ∧ x = "i" ∧ t = .integer ∧
            Run.StillOpen program m n (Nesting.before program m + 1))) := by
  obtain ⟨hlen, hold⟩ := Run.fits_function h hzero hlead haccepted hk hn hinside hdef
  rw [(Run.before_built program n).distinct.lookup_visible, hold.mem_flatten, hlen]
  constructor
  · rintro ⟨level, -, ⟨-, hp⟩ | ⟨m, hkm, hmn, ⟨text, htext, hacc, hd⟩, hs⟩⟩
    · exact .inl hp
    · refine .inr ⟨m, text, hkm, hmn, htext, hacc, ?_⟩
      rcases hd with ⟨hd, rfl⟩ | ⟨hc, ⟨hx, ht⟩, rfl⟩
      · exact .inl ⟨hd, hs⟩
      · exact .inr ⟨hc, hx, ht, hs⟩
  · rintro (hp | ⟨m, text, hkm, hmn, htext, hacc, ⟨hd, hs⟩ | ⟨hc, hx, ht, hs⟩⟩)
    · exact ⟨0, Nat.succ_pos _, .inl ⟨rfl, hp⟩⟩
    · exact ⟨_, Nat.lt_succ_of_le (hs n hmn (Nat.le_refl n)),
        .inr ⟨m, hkm, hmn, ⟨text, htext, hacc, .inl ⟨hd, rfl⟩⟩, hs⟩⟩
    · exact ⟨_, Nat.lt_succ_of_le (hs n hmn (Nat.le_refl n)),
        .inr ⟨m, hkm, hmn, ⟨text, htext, hacc, .inr ⟨hc, ⟨hx, ht⟩, rfl⟩⟩, hs⟩⟩

/-- Before the last brace the loop is closed, with its counter and the variable inside of it. -/
theorem visible_in_function_sample :
    let program := ["please create text s", "please define function void f(integer a) \x7b",
      "thank you for looping from 1 to a \x7b", "please create text b", "\x7d", "\x7d"]
    ∀ x t, (Run.before program 5).scope.visible.lookup x = some t ↔
      Line.Lists "please define function void f(integer a) \x7b" x t ∨
      ∃ m text, 1 < m ∧ m < 5 ∧ program[m]? = some text ∧
        Step.Accepts (Run.before program m) text ∧
        ((Line.Declares text x t ∧ Run.StillOpen program m 5 (Nesting.before program m)) ∨
          (Line.Counts text ∧ x = "i" ∧ t = .integer ∧
            Run.StillOpen program m 5 (Nesting.before program m + 1))) := by
  intro program
  let header := "please define function void f(integer a) \x7b"
  obtain ⟨hzero, hlead, hacc, hinside, hdef⟩ : Nesting.before program 1 = 0 ∧
      Line.Leads "please define function" header ∧ Step.Accepts (Run.before program 1) header ∧
      (∀ m ∈ [2, 3, 4, 5], Nesting.before program m ≠ 0) ∧
      ∀ text ∈ program.drop 2, ¬ Line.Leads "please define function" text := by
    unfold Step.Accepts
    decide +kernel
  refine visible_in_function (k := 1) rfl hzero hlead hacc (by decide) (by decide) ?_ ?_
  · intro m hkm hmn
    have hm : m = 2 ∨ m = 3 ∨ m = 4 ∨ m = 5 := by omega
    exact hinside m (by simpa using hm)
  · intro m text hkm hmn htext
    obtain ⟨j, rfl⟩ := Nat.exists_eq_add_of_le (show 2 ≤ m from hkm)
    rw [← List.getElem?_drop] at htext
    exact hdef text (List.mem_of_getElem? htext)

end Courtesy
