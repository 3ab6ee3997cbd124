import Courtesy.Proofs.Functions
import Courtesy.Proofs.Scoping

/-!
# Visibility over whole runs

What can be named before a line of a program, whatever stands above it.

A name is bound by a line at a level (`Run.Binds`): by a declaration at the depth at which it
stands, by a counting loop at the depth of its block, and by a header, for the parameters of its
function, at the depth of the header itself. A binding stands as long as the depth does not fall
below its level and no function is entered (`Run.Stands`). What can be named is what is bound by a
binding that stands (`Run.visible_iff`).

Two things follow. No name is bound by two lines whose bindings both stand (`declared_once`). And
since the level of parameters is that of the header, the parameters of a function that is defined
outside of all blocks can still be named behind it (`visible_outside_blocks`).
-/

namespace Courtesy

open Statement

/-! ## Frames from the inside -/

namespace Scope

/-- The frame with `i` frames further inside; a frame that does not exist binds nothing. -/
def frame (s : Scope) (i : Nat) : Variables := s.frames.getD i []

@[simp] theorem frame_pop (s : Scope) (i : Nat) : s.pop.frame i = s.frame (i + 1) := by
  unfold frame pop
  cases s.frames <;> simp

theorem mem_flatten_iff {s : Scope} {v : String × ValueType} :
    v ∈ s.frames.flatten ↔ ∃ i, v ∈ s.frame i := by
  unfold frame
  constructor
  · intro hv
    obtain ⟨vs, hvs, hv⟩ := List.mem_flatten.1 hv
    obtain ⟨i, hi⟩ := List.getElem?_of_mem hvs
    exact ⟨i, by rw [List.getD_eq_getElem?_getD, hi]; exact hv⟩
  · rintro ⟨i, hv⟩
    rw [List.getD_eq_getElem?_getD] at hv
    cases hi : s.frames[i]? with
    | none => rw [hi] at hv; cases hv
    | some vs => rw [hi] at hv; exact List.mem_flatten.2 ⟨vs, List.mem_of_getElem? hi, hv⟩

end Scope

/-! ## What a line does to the frames -/

/-- What an accepted line adds to the frames and to the block that it opens. -/
theorem Line.Change.declared {text : String} {tokens : List Token} {frames frames' : List Variables}
    {o : Opening} (h : Change text tokens frames frames' o) :
    (∀ i x t, (x, t) ∈ frames'.getD i [] ↔
      (x, t) ∈ frames.getD i [] ∨ (i = 0 ∧ Declares text x t)) ∧
    ∀ x t, ⟨x, t⟩ ∈ o.vars ↔ Counts text ∧ x = counter ∧ t = .integer := by
  have notBoth : ∀ {phrase phrase'}, Leads phrase text → phrase ≠ phrase' →
      ¬ Leads phrase' text := fun h hne h' => hne (h.unique h')
  have none : (∀ x t, ¬ Declares text x t) → ∀ i x t, (x, t) ∈ frames.getD i [] ↔
      (x, t) ∈ frames.getD i [] ∨ (i = 0 ∧ Declares text x t) := by
    intro hno i x t
    simp [hno x t]
  cases h with
  | @declares y u line hd =>
    refine ⟨fun i x t => ?_, fun x t => ?_⟩
    · have hxt : Declares text x t ↔ (x, t) = (y, u) := by
        rw [Prod.mk.injEq]
        constructor
        · exact fun hd' => hd'.unique hd
        · rintro ⟨rfl, rfl⟩
          exact hd
      cases i with
      | zero => cases frames <;> simp [hxt, or_comm]
      | succ i => cases frames <;> simp
    · have hno : ¬ Counts text := fun hc => notBoth hd.leads (by decide) hc.leads
      simp [hno]
  | counts _ hc =>
    refine ⟨none fun x t hd => notBoth hc.leads (by decide) hd.leads, fun x t => ?_⟩
    simp [hc]
  | opens _ hlead hcounts =>
    refine ⟨none fun x t hd => ?_, fun x t => by simp [hcounts]⟩
    rcases hlead with hlead | hlead
    · exact notBoth hlead (by decide) hd.leads
    · exact notBoth hlead (by decide) hd.leads
  | keeps hcreate hloop _ =>
    have hcounts : ¬ Counts text := fun hc => hloop hc.leads
    exact ⟨none fun x t hd => hcreate hd.leads, fun x t => by simp [hcounts]⟩

theorem Line.Heads.unique {name name' text : String} (h : Heads name text)
    (h' : Heads name' text) : name = name' := by
  obtain ⟨tokens, _, hl, -, hname⟩ := h
  obtain ⟨tokens', _, hl', -, hname'⟩ := h'
  rw [hl] at hl'
  cases hl'
  exact Option.some.inj (hname.symm.trans hname')

theorem Line.Heads.leads {name text : String} (h : Heads name text) :
    Leads "please define function" text := by
  obtain ⟨first, rest, _, hl, hk, -⟩ := heads_iff.1 h
  have hvalid := (Token.valid_of_ofLine hl first List.mem_cons_self).1
  exact ⟨first, rest, hl, text_of_define (hvalid.symm.trans hk)⟩

theorem Line.Heads.ne_closing {name text : String} (h : Heads name text) : text ≠ "\x7d" :=
  h.leads.ne_closing (by decide)

namespace Statement

section

variable {st : State} {tokens : List Token}

/-- A definition that enters no function leaves the scope alone. -/
theorem definition_scope_kept (h : ∀ header, functionHeader tokens = .ok header →
    st.scope.function? header.name ≠ none) : (definition st tokens).1.scope = st.scope := by
  unfold definition
  split
  · rfl
  · rename_i header hh
    obtain ⟨f, hf⟩ := Option.ne_none_iff_exists'.1 (h header hh)
    have hfunction : st.scope.isFunction header.name = true := by
      rw [Scope.isFunction, hf]
      rfl
    simp [hfunction]

/-- A definition that enters a function leaves one frame, that of the parameters. -/
theorem definition_frames_entered {header : FunctionHeader}
    (hh : functionHeader tokens = .ok header) (hnew : st.scope.function? header.name = none) :
    ∃ frame, (definition st tokens).1.scope.frames = [frame] ∧ ∀ x t, (x, t) ∈ frame ↔
      ⟨x, t⟩ ∈ (params st.scope.enterFunction true header.paramTokens).params := by
  have hno : st.scope.isFunction header.name = false := Scope.isFunction_eq_false_iff.2 hnew
  obtain ⟨frame, hframe, hmem⟩ :=
    params_frames (s := st.scope.enterFunction) rfl true header.paramTokens
  refine ⟨frame, ?_, fun x t => by rw [hmem]; simp⟩
  simp only [definition, hh, hno, Bool.false_eq_true, ↓reduceIte]
  split
  · exact hframe
  · split <;> exact hframe

end

end Statement

namespace Step

section

variable {st : State} {text : String}

/-- What a line that is led by no definition adds to the frames and to the block that it opens. -/
theorem Reading.kept {r : Step × List Param} (h : Reading st text r)
    (hdef : ¬ Line.Leads "please define function" text) :
    (∀ i x t, (x, t) ∈ r.1.state.scope.frame i ↔ (x, t) ∈ st.scope.frame i ∨
      (i = 0 ∧ Event.diagnostics r.1.events = [] ∧ Line.Declares text x t)) ∧
    ∀ x t, ⟨x, t⟩ ∈ r.2 ↔
      Event.diagnostics r.1.events = [] ∧ Line.Counts text ∧ x = counter ∧ t = .integer := by
  cases h.simple hdef with
  | blank hl =>
    have notLead : ∀ {phrase}, ¬ Line.Leads phrase text := by
      rintro phrase ⟨lead, rest, hl', -⟩
      rw [hl] at hl'
      cases hl'
    have hdeclares : ∀ x t, ¬ Line.Declares text x t := fun x t hd => notLead hd.leads
    have hcounts : ¬ Line.Counts text := fun hc => notLead hc.leads
    simp [hdeclares, hcounts]
  | refused d infos => simp
  | carried info hstate _ _ hchange _ =>
    subst hstate
    obtain ⟨hframes, hvars⟩ := hchange.declared
    simpa [Scope.frame] using And.intro hframes hvars

/-- A line that is led by a definition and enters no function leaves the scope alone. -/
theorem perform_kept (hno : ∀ f, ¬ Enters st text f)
    (hdef : Line.Leads "please define function" text) :
    (perform (marked st text) text).1.state.scope = st.scope ∧
      (perform (marked st text) text).2 = [] := by
  obtain ⟨first, rest, hl, hlead⟩ := hdef
  have hk : first.kind = .define := Line.kind_of_leads ⟨first, rest, hl, hlead⟩ hl
  obtain ⟨hstate, hvars⟩ := perform_define (marked st text) hl hk
  refine ⟨?_, hvars⟩
  rw [hstate, definition_scope_kept, marked_scope]
  intro header hh hnew
  rw [marked_scope] at hnew
  obtain ⟨f, -, hf⟩ :=
    enters_of_heads (Line.heads_iff.2 ⟨first, rest, header, hl, hk, hh, rfl⟩) hnew
  exact hno f hf

/-- The frame of a block that is opened holds its variables. -/
theorem frame_openBlock {vars : List Param} (hvars : vars = [] ∨ ∃ p, vars = [p]) (st : State)
    (x : String) (t : ValueType) :
    ((x, t) ∈ (st.openBlock vars).scope.frame 0 ↔ ⟨x, t⟩ ∈ vars) ∧
      ∀ i, (st.openBlock vars).scope.frame (i + 1) = st.scope.frame i := by
  rcases hvars with rfl | ⟨⟨y, u⟩, rfl⟩
  · exact ⟨by simp [State.openBlock, Scope.push, Scope.declareAll, Scope.frame], fun _ => rfl⟩
  · refine ⟨?_, fun _ => rfl⟩
    show (x, t) ∈ [(y, u)] ↔ _
    simp

theorem scope_ofLine (hne : text ≠ "\x7d") (st : State) :
    (ofLine st text).state.scope = (if opens (tokenize text) then
        (perform (marked st text) text).1.state.openBlock (perform (marked st text) text).2
      else (perform (marked st text) text).1.state).scope := by
  rw [ofLine_statement hne]

/-- The name was bound in a frame, or is declared by the line in the block in which it stands. -/
def Keeps (st : State) (text x : String) (t : ValueType) (i : Nat) : Prop :=
  (x, t) ∈ st.scope.frame i ∨ (i = 0 ∧ Accepts st text ∧ Line.Declares text x t)

/-- What is bound behind a line that enters no function: what is kept, and what the line counts in
the block that it opens. -/
theorem frame_ofLine (hne : text ≠ "\x7d") (hno : ∀ f, ¬ Enters st text f) (x : String)
    (t : ValueType) :
    let after := (ofLine st text).state.scope
    if opens (tokenize text) then
      ((x, t) ∈ after.frame 0 ↔ Accepts st text ∧ Line.Counts text ∧ x = counter ∧ t = .integer) ∧
        ∀ i, (x, t) ∈ after.frame (i + 1) ↔ Keeps st text x t i
    else ∀ i, (x, t) ∈ after.frame i ↔ Keeps st text x t i := by
  intro after
  have hr := perform_reading (marked st text) text
  have hone : (perform (marked st text) text).2 = [] ∨
      ∃ p, (perform (marked st text) text).2 = [p] := hr.vars.imp_right fun h => ⟨_, h⟩
  have hkept : (∀ i, (x, t) ∈ (perform (marked st text) text).1.state.scope.frame i ↔
        Keeps st text x t i) ∧
      (⟨x, t⟩ ∈ (perform (marked st text) text).2 ↔
        Accepts st text ∧ Line.Counts text ∧ x = counter ∧ t = .integer) := by
    by_cases hdef : Line.Leads "please define function" text
    · obtain ⟨hscope, hvars⟩ := perform_kept hno hdef
      have hdeclares : ¬ Line.Declares text x t :=
        fun hd => absurd (hdef.unique hd.leads) (by decide)
      have hcounts : ¬ Line.Counts text := fun hc => absurd (hdef.unique hc.leads) (by decide)
      simp [hscope, hvars, hdeclares, hcounts, Keeps]
    · obtain ⟨hframes, hvars⟩ := hr.kept hdef
      simp only [Keeps, accepts_iff hne]
      rw [marked_scope] at hframes
      exact ⟨fun i => hframes i x t, hvars x t⟩
  rw [show after = _ from scope_ofLine hne st]
  generalize perform (marked st text) text = r at hone hkept ⊢
  split
  · obtain ⟨hnew, hrest⟩ := frame_openBlock hone r.1.state x t
    exact ⟨hnew.trans hkept.2, fun i => by rw [hrest, hkept.1]⟩
  · exact hkept.1

/-- Behind the first header of a function just its parameters are bound, outside of the block that
the header opens. -/
theorem frame_ofLine_enters {f : Signature} (h : Enters st text f) (x : String) (t : ValueType) :
    let after := (ofLine st text).state.scope
    ∀ i, (x, t) ∈ after.frame i ↔
      ⟨x, t⟩ ∈ f.params ∧ i = if opens (tokenize text) then 1 else 0 := by
  intro after
  have hne := h.1.ne_closing
  obtain ⟨first, rest, header, hl, hlead, hh, hname⟩ := Line.heads_iff.1 h.1
  have hnew : st.scope.function? header.name = none := by
    rw [hname]
    exact h.2.1
  have hparams : f.params = (params st.scope.enterFunction true header.paramTokens).params :=
    congrArg Signature.params (h.entry hl hlead hh)
  obtain ⟨hstate, hvars⟩ := perform_define (marked st text) hl hlead
  have hfresh : (marked st text).scope.function? header.name = none := by
    rw [marked_scope]
    exact hnew
  obtain ⟨inner, hframes, hmem⟩ := definition_frames_entered hh hfresh
  rw [marked_scope, ← hparams] at hmem
  rw [← hstate] at hframes
  rw [show after = _ from scope_ofLine hne st, hvars]
  generalize (perform (marked st text) text).1.state = st' at hframes ⊢
  have hinner : ∀ i, (x, t) ∈ st'.scope.frame i ↔ ⟨x, t⟩ ∈ f.params ∧ i = 0 := by
    intro i
    rw [← hmem]
    cases i <;> simp [Scope.frame, hframes]
  intro i
  split
  · obtain ⟨hnew, hrest⟩ := frame_openBlock (.inl rfl) st' x t
    cases i with
    | zero => rw [hnew]; simp
    | succ i => rw [hrest, hinner]; simp
  · exact hinner i

/-- An accepted declaration declares a name that neither a variable nor a function has. -/
theorem Accepts.fresh_of_declares {x : String} {t : ValueType} (hacc : Accepts st text)
    (h : Line.Declares text x t) :
    st.scope.isDeclared x = false ∧ st.scope.isFunction x = false := by
  obtain ⟨lead, typeToken, nameToken, rest, hl, hlead, -, rfl⟩ := id h
  have hk : lead.kind = .create := Line.kind_of_leads ⟨lead, _, hl, hlead⟩ hl
  obtain ⟨st', o, hp, -⟩ := hacc.carried (h.leads.ne_closing (by decide)) hl
  rw [hk] at hp
  cases hp with
  | created hok =>
    obtain ⟨_, _, _, _, _, htokens, -, -, hfree, hfunction, -⟩ := declaration_ok hok
    cases htokens
    rw [marked_scope] at hfree hfunction
    exact ⟨hfree, hfunction⟩

/-- An accepted counting loop finds that neither a variable nor a function has the name of its
counter. -/
theorem Accepts.fresh_of_counts (hacc : Accepts st text) (h : Line.Counts text) :
    st.scope.isDeclared counter = false ∧ st.scope.isFunction counter = false := by
  obtain ⟨lead, second, rest, hl, hlead, hsecond⟩ := id h
  have hk : lead.kind = .loop := Line.kind_of_leads ⟨lead, _, hl, hlead⟩ hl
  obtain ⟨st', o, hp, -⟩ := hacc.carried (h.leads.ne_closing (by decide)) hl
  rw [hk] at hp
  cases hp with
  | looped hok =>
    rcases loop_ok hok with hfor | ⟨-, hno⟩
    · obtain ⟨_, _, _, _, _, _, _, _, hfree, hfunction, -⟩ := forLoop_ok hfor
      rw [marked_scope] at hfree hfunction
      exact ⟨hfree, hfunction⟩
    · have hmem : second ∈ lead :: second :: rest := by simp
      refine absurd ?_ (hno second hmem)
      rw [(Token.valid_of_ofLine hl second hmem).1, hsecond]
      rfl

end

end Step

/-! ## Bindings that stand -/

namespace Run

/-- The line with index `m` binds a name at a level: it introduces a variable, or it is the first
header of a function with this parameter. -/
inductive Binds (program : List String) (m : Nat) : Nat → String → ValueType → Prop
  | introduced {level : Nat} {x : String} {t : ValueType} (h : Introduces program m level x t) :
      Binds program m level x t
  | parameter {f : Signature} {x : String} {t : ValueType} (h : Enters program m f)
      (hp : ⟨x, t⟩ ∈ f.params) : Binds program m (Nesting.before program m) x t

/-- What the line with index `m` binds at a level stands before the line with index `n`: the depth
has not been below the level since, and no function has been entered. -/
structure Stands (program : List String) (m n level : Nat) : Prop where
  above : m < n
  isOpen : StillOpen program m n level
  alone : ∀ l f, m < l → l < n → ¬ Enters program l f

/-- A binding of the name at the level stands before the line with index `n`. -/
def Standing (program : List String) (n level : Nat) (x : String) (t : ValueType) : Prop :=
  ∃ m, Binds program m level x t ∧ Stands program m n level

section

variable {program : List String} {m n level : Nat} {x : String} {t : ValueType}

/-- A block stays open behind one more line as long as the depth does not fall below its level. -/
theorem stillOpen_succ (hmn : m ≤ n) :
    StillOpen program m (n + 1) level ↔
      StillOpen program m n level ∧ level ≤ Nesting.before program (n + 1) := by
  constructor
  · intro h
    refine ⟨fun l hml hln => h l hml (Nat.le_succ_of_le hln), ?_⟩
    exact h (n + 1) (Nat.lt_succ_of_le hmn) (Nat.le_refl (n + 1))
  · rintro ⟨h, hlevel⟩ l hml hln
    rcases Nat.lt_or_eq_of_le hln with hln | rfl
    · exact h l hml (Nat.le_of_lt_succ hln)
    · exact hlevel

theorem stillOpen_self : StillOpen program n n level := by
  intro l hnl hln
  omega

theorem Stands.le_depth (h : Stands program m n level) : level ≤ Nesting.before program n :=
  h.isOpen n h.above (Nat.le_refl n)

theorem Enters.unique {f g : Signature} (hf : Enters program m f) (hg : Enters program m g) :
    f = g := by
  obtain ⟨text, htext, hf, -, hfentry⟩ := hf
  obtain ⟨text', htext', hg, -, hgentry⟩ := hg
  rw [htext] at htext'
  cases htext'
  rw [hf.unique hg, hgentry] at hfentry
  exact (Option.some.inj hfentry).symm

/-- What the first header of a function binds are the parameters of the function. -/
theorem Enters.param_of_binds {f : Signature} (hf : Enters program m f)
    (hb : Binds program m level x t) : ⟨x, t⟩ ∈ f.params ∧ level = Nesting.before program m := by
  cases hb with
  | parameter hg hp => exact ⟨hg.unique hf ▸ hp, rfl⟩
  | introduced hi =>
    obtain ⟨text, htext, hheads, -⟩ := hf
    obtain ⟨text', htext', -, hi⟩ := hi
    rw [htext] at htext'
    cases htext'
    rcases hi with ⟨hd, -⟩ | ⟨hc, -⟩
    · exact absurd (hheads.leads.unique hd.leads) (by decide)
    · exact absurd (hheads.leads.unique hc.leads) (by decide)

/-- One more line keeps what stands and adds what it binds, as far as the blocks stay open. -/
theorem standing_succ (hno : ∀ f, ¬ Enters program n f)
    (hlevel : level ≤ Nesting.before program (n + 1)) :
    Standing program (n + 1) level x t ↔
      Standing program n level x t ∨ Introduces program n level x t := by
  constructor
  · rintro ⟨m, hb, hs⟩
    rcases Nat.lt_or_eq_of_le (Nat.le_of_lt_succ hs.above) with hmn | rfl
    · refine .inl ⟨m, hb, hmn, ((stillOpen_succ (Nat.le_of_lt hmn)).1 hs.isOpen).1, ?_⟩
      exact fun l f hml hln => hs.alone l f hml (Nat.lt_succ_of_lt hln)
    · cases hb with
      | introduced hi => exact .inr hi
      | parameter he _ => exact absurd he (hno _)
  · rintro (⟨m, hb, hs⟩ | hi)
    · refine ⟨m, hb, Nat.lt_succ_of_lt hs.above, ?_, fun l f hml hln => ?_⟩
      · exact (stillOpen_succ (Nat.le_of_lt hs.above)).2 ⟨hs.isOpen, hlevel⟩
      · rcases Nat.lt_or_eq_of_le (Nat.le_of_lt_succ hln) with hln | rfl
        · exact hs.alone l f hml hln
        · exact hno f
    · refine ⟨n, .introduced hi, Nat.lt_succ_self n, ?_, fun l f hnl hln => ?_⟩
      · exact (stillOpen_succ (Nat.le_refl n)).2 ⟨stillOpen_self, hlevel⟩
      · omega

/-- Behind the first header of a function just its parameters stand. -/
theorem standing_succ_enters {f : Signature} (hf : Enters program n f)
    (hlevel : level ≤ Nesting.before program (n + 1)) :
    Standing program (n + 1) level x t ↔
      ⟨x, t⟩ ∈ f.params ∧ level = Nesting.before program n := by
  constructor
  · rintro ⟨m, hb, hs⟩
    rcases Nat.lt_or_eq_of_le (Nat.le_of_lt_succ hs.above) with hmn | rfl
    · exact absurd hf (hs.alone n f hmn (Nat.lt_succ_self n))
    · exact hf.param_of_binds hb
  · rintro ⟨hp, rfl⟩
    refine ⟨n, .parameter hf hp, Nat.lt_succ_self n, ?_, fun l g hnl hln => ?_⟩
    · exact (stillOpen_succ (Nat.le_refl n)).2 ⟨stillOpen_self, hlevel⟩
    · omega

theorem not_standing_above (hlevel : Nesting.before program n < level) :
    ¬ Standing program n level x t := by
  rintro ⟨m, -, hs⟩
  exact Nat.not_le_of_lt hlevel hs.le_depth

/-- The frames hold what stands, the innermost at the depth of the line. -/
def Held (program : List String) (n : Nat) : Prop :=
  ∀ i x t, (x, t) ∈ (before program n).scope.frame i ↔
    i ≤ Nesting.before program n ∧ Standing program n (Nesting.before program n - i) x t

theorem held_closing (h : program[n]? = some "\x7d") (hheld : Held program n) :
    Held program (n + 1) := by
  have hdepth : Nesting.before program (n + 1) = Nesting.before program n - 1 := by
    rw [Nesting.before_succ h, Nesting.behind, if_pos rfl]
  have hno : ∀ f, ¬ Enters program n f := by
    rintro f ⟨text, htext, hheads, -⟩
    rw [h] at htext
    cases htext
    exact hheads.ne_closing rfl
  have hsucc : ∀ {level x t}, level ≤ Nesting.before program (n + 1) →
      (Standing program (n + 1) level x t ↔ Standing program n level x t) := by
    intro level x t hlevel
    rw [standing_succ hno hlevel, or_iff_left (not_introduces_closing h)]
  have hblocks := blocks_before program n
  intro i x t
  cases hb : (before program n).blocks with
  | nil =>
    rw [hb, List.length_nil] at hblocks
    have hsame : Nesting.before program n - 1 = Nesting.before program n := by omega
    rw [before_succ h, Step.ofLine_closing_nil hb, hsucc (Nat.sub_le _ _), hdepth, hsame]
    exact hheld i x t
  | cons b outer =>
    rw [hb, List.length_cons] at hblocks
    rw [before_succ h, Step.ofLine_closing_cons hb, hsucc (Nat.sub_le _ _), hdepth]
    show (x, t) ∈ (before program n).scope.pop.frame i ↔ _
    rw [Scope.frame_pop, hheld, Nat.sub_sub, Nat.add_comm 1 i]
    exact and_congr_left fun _ => by omega

theorem held_enters {f : Signature} (hf : Enters program n f) : Held program (n + 1) := by
  obtain ⟨text, h, hstep⟩ := id hf
  have hdepth : Nesting.before program (n + 1) =
      if Step.opens (tokenize text) then Nesting.before program n + 1
      else Nesting.before program n := by
    rw [Nesting.before_succ h, Nesting.behind, if_neg hstep.1.ne_closing]
  intro i x t
  rw [before_succ h, Step.frame_ofLine_enters hstep, standing_succ_enters hf (Nat.sub_le _ _)]
  split at hdepth
  · rename_i hopens
    rw [hdepth, if_pos hopens]
    constructor
    · rintro ⟨hp, rfl⟩
      exact ⟨by omega, hp, by omega⟩
    · rintro ⟨hi, hp, hlevel⟩
      exact ⟨hp, by omega⟩
  · rename_i hopens
    rw [hdepth, if_neg hopens]
    constructor
    · rintro ⟨hp, rfl⟩
      exact ⟨by omega, hp, by omega⟩
    · rintro ⟨hi, hp, hlevel⟩
      exact ⟨hp, by omega⟩

theorem held_statement {text : String} (h : program[n]? = some text) (hne : text ≠ "\x7d")
    (hno : ∀ f, ¬ Enters program n f) (hheld : Held program n) : Held program (n + 1) := by
  have hdepth : Nesting.before program (n + 1) =
      if Step.opens (tokenize text) then Nesting.before program n + 1
      else Nesting.before program n := by
    rw [Nesting.before_succ h, Nesting.behind, if_neg hne]
  intro i x t
  have hframe := Step.frame_ofLine hne (fun f hf => hno f ⟨text, h, hf⟩) x t
  rw [← before_succ h] at hframe
  -- the frames from before, with what the line declares in the innermost of them
  have hkept : ∀ i, Nesting.before program n ≤ Nesting.before program (n + 1) →
      (Step.Keeps (before program n) text x t i ↔ i ≤ Nesting.before program n ∧
        Standing program (n + 1) (Nesting.before program n - i) x t) := by
    intro i hle
    rw [Step.Keeps, standing_succ hno (Nat.le_trans (Nat.sub_le _ _) hle), hheld, introduces_iff h]
    constructor
    · rintro (⟨hi, hs⟩ | ⟨rfl, hacc, hd⟩)
      · exact ⟨hi, .inl hs⟩
      · exact ⟨Nat.zero_le _, .inr ⟨hacc, .inl ⟨hd, rfl⟩⟩⟩
    · rintro ⟨hi, hs | ⟨hacc, ⟨hd, hlevel⟩ | ⟨-, -, hlevel⟩⟩⟩
      · exact .inl ⟨hi, hs⟩
      · exact .inr ⟨by omega, hacc, hd⟩
      · omega
  split at hdepth
  · rename_i hopens
    rw [if_pos hopens] at hframe
    obtain ⟨hnew, hrest⟩ := hframe
    rw [hdepth]
    cases i with
    | zero =>
      rw [hnew, Nat.sub_zero, standing_succ hno (Nat.le_of_eq hdepth.symm), introduces_iff h,
        or_iff_right (not_standing_above (Nat.lt_succ_self _))]
      simp
    | succ i =>
      rw [hrest, hkept i (by omega), Nat.add_sub_add_right, Nat.add_le_add_iff_right]
  · rename_i hopens
    rw [if_neg hopens] at hframe
    rw [hframe, hkept i (Nat.le_of_eq hdepth.symm), hdepth]

/-- The frames hold what stands before every line. -/
theorem held (program : List String) (n : Nat) : Held program n := by
  induction n with
  | zero =>
    intro i x t
    constructor
    · intro hx
      cases hx
    · rintro ⟨-, m, -, hs⟩
      exact absurd hs.above (Nat.not_lt_zero m)
  | succ n ih =>
    cases h : program[n]? with
    | none =>
      have hdepth := Nesting.before_of_getElem?_none h
      have hno : ∀ f, ¬ Enters program n f := by
        rintro f ⟨text, htext, -⟩
        rw [h] at htext
        cases htext
      have hnone : ∀ {level x t}, ¬ Introduces program n level x t := by
        rintro level x t ⟨text, htext, -⟩
        rw [h] at htext
        cases htext
      intro i x t
      rw [before_of_getElem?_none h, standing_succ hno (Nat.sub_le _ _), or_iff_left hnone, hdepth]
      exact ih i x t
    | some text =>
      by_cases hf : ∃ f, Enters program n f
      · obtain ⟨f, hf⟩ := hf
        exact held_enters hf
      · have hno : ∀ f, ¬ Enters program n f := fun f hf' => hf ⟨f, hf'⟩
        by_cases hne : text = "\x7d"
        · subst hne
          exact held_closing h ih
        · exact held_statement h hne hno ih

/-- What can be named before a line is what is bound by a binding that stands. -/
theorem visible_iff :
    (before program n).scope.visible.lookup x = some t ↔ ∃ level, Standing program n level x t := by
  rw [(before_built program n).distinct.lookup_visible, Scope.mem_flatten_iff]
  constructor
  · rintro ⟨i, hi⟩
    exact ⟨_, ((held program n i x t).1 hi).2⟩
  · rintro ⟨level, hs⟩
    obtain ⟨m, -, hm⟩ := id hs
    refine ⟨Nesting.before program n - level, (held program n _ x t).2 ⟨Nat.sub_le _ _, ?_⟩⟩
    rw [Nat.sub_sub_self hm.le_depth]
    exact hs

/-- What stands before a line stood before the lines in between. -/
theorem Stands.earlier {k : Nat} (h : Stands program m n level) (hmk : m < k) (hkn : k ≤ n) :
    Stands program m k level where
  above := hmk
  isOpen l hml hlk := h.isOpen l hml (Nat.le_trans hlk hkn)
  alone l f hml hlk := h.alone l f hml (Nat.lt_of_lt_of_le hlk hkn)

/-- A line introduces a name that neither a variable nor a function has. -/
theorem Introduces.fresh (h : Introduces program m level x t) :
    (before program m).scope.isDeclared x = false ∧
      (before program m).scope.isFunction x = false := by
  obtain ⟨text, -, hacc, ⟨hd, -⟩ | ⟨hc, ⟨rfl, -⟩, -⟩⟩ := h
  · exact hacc.fresh_of_declares hd
  · exact hacc.fresh_of_counts hc

/-- No line binds a name for which a binding stands. -/
theorem Stands.not_rebound (hb : Binds program m level x t) (hs : Stands program m n level)
    {k level' : Nat} {u : ValueType} (hk : Binds program k level' x u) (hmk : m < k) : n ≤ k := by
  refine Nat.le_of_not_lt fun hkn => ?_
  cases hk with
  | parameter he _ => exact hs.alone k _ hmk hkn he
  | introduced hi =>
    have hvisible := visible_iff.2 ⟨level, m, hb, hs.earlier hmk (Nat.le_of_lt hkn)⟩
    have hfree := hi.fresh.1
    rw [Scope.isDeclared, ← Scope.lookup_visible, hvisible] at hfree
    cases hfree

/-- Two bindings of a name that both stand are made by the same line. -/
theorem Stands.unique {m' level' : Nat} {u : ValueType} (hb : Binds program m level x t)
    (hs : Stands program m n level) (hb' : Binds program m' level' x u)
    (hs' : Stands program m' n level') : m = m' := by
  rcases Nat.lt_trichotomy m m' with hlt | heq | hlt
  · exact absurd (hs.not_rebound hb hb' hlt) (Nat.not_le_of_lt hs'.above)
  · exact heq
  · exact absurd (hs'.not_rebound hb' hb hlt) (Nat.not_le_of_lt hs.above)

end

end Run

/-! ## One declaration for each name -/

/-- In scopes without a name that is bound twice, a name stands in one frame only, with one type. -/
theorem Scope.Distinct.frame_unique {s : Scope} (h : s.Distinct) {i j : Nat} {x : String}
    {t u : ValueType} (hi : (x, t) ∈ s.frame i) (hj : (x, u) ∈ s.frame j) : i = j ∧ t = u := by
  unfold Distinct at h
  unfold frame at hi hj
  generalize s.frames = frames at h hi hj
  induction frames generalizing i j with
  | nil => cases hi
  | cons vs outer ih =>
    rw [List.flatten_cons, List.map_append, List.nodup_append] at h
    obtain ⟨hinner, houter, hapart⟩ := h
    have elsewhere : ∀ {k v w}, (x, v) ∈ vs → (x, w) ∉ outer.getD k [] := by
      intro k v w hv hw
      have hflat : (x, w) ∈ outer.flatten :=
        (mem_flatten_iff (s := { frames := outer })).2 ⟨k, hw⟩
      exact hapart x (List.mem_map.2 ⟨_, hv, rfl⟩) x (List.mem_map.2 ⟨_, hflat, rfl⟩) rfl
    match i, j with
    | 0, 0 =>
      have ht := (lookup_eq_some_iff_mem hinner).2 hi
      have hu := (lookup_eq_some_iff_mem hinner).2 hj
      rw [ht] at hu
      exact ⟨rfl, Option.some.inj hu⟩
    | 0, j + 1 => exact absurd hj (elsewhere hi)
    | i + 1, 0 => exact absurd hi (elsewhere hj)
    | i + 1, j + 1 =>
      obtain ⟨hij, htu⟩ := ih houter hi hj
      exact ⟨congrArg (· + 1) hij, htu⟩

/-- Before every line of every program, no name is bound in two frames, nor twice in one; and what
can be named is bound by exactly one line whose binding stands. -/
theorem declared_once (program : List String) (n : Nat) :
    let scope := (Run.before program n).scope
    (∀ i j x t u, (x, t) ∈ scope.frame i → (x, u) ∈ scope.frame j → i = j ∧ t = u) ∧
    (scope.frames.flatten.map (·.1)).Nodup ∧
    ∀ x t, scope.visible.lookup x = some t →
      ∃ m level, (Run.Binds program m level x t ∧ Run.Stands program m n level) ∧
        ∀ m' level' u, Run.Binds program m' level' x u → Run.Stands program m' n level' →
          m' = m ∧ u = t := by
  intro scope
  have hdistinct := (Run.before_built program n).distinct
  refine ⟨fun i j x t u hi hj => hdistinct.frame_unique hi hj, hdistinct, fun x t hx => ?_⟩
  obtain ⟨level, m, hb, hs⟩ := Run.visible_iff.1 hx
  refine ⟨m, level, ⟨hb, hs⟩, fun m' level' u hb' hs' => ⟨hs'.unique hb' hb hs, ?_⟩⟩
  have hu := Run.visible_iff.2 ⟨level', m', hb', hs'⟩
  exact Option.some.inj (hu.symm.trans hx)

/-- The counter of a loop inside of a function has one declaration, beside the parameter. -/
theorem declared_once_counter :
    let program := ["please define function void f(integer a) \x7b",
      "thank you for looping from 1 to a \x7b"]
    (Run.before program 2).scope.visible.lookup "i" = some .integer ∧
      ∃ m level, (Run.Binds program m level "i" .integer ∧ Run.Stands program m 2 level) ∧
        ∀ m' level' u, Run.Binds program m' level' "i" u → Run.Stands program m' 2 level' →
          m' = m ∧ u = .integer := by
  intro program
  have hi : (Run.before program 2).scope.visible.lookup "i" = some .integer := by decide +kernel
  exact ⟨hi, (declared_once program 2).2.2 "i" .integer hi⟩

/-! ## Outside of all blocks -/

namespace Run

/-- A line outside of all blocks has declared the variable, and no function has been entered
since. -/
def CreatedOutside (program : List String) (n : Nat) (x : String) (t : ValueType) : Prop :=
  ∃ m text, m < n ∧ program[m]? = some text ∧ Nesting.before program m = 0 ∧
    Step.Accepts (before program m) text ∧ Line.Declares text x t ∧
    ∀ l f, m < l → l < n → ¬ Enters program l f

/-- The function that was entered last has this parameter, and its header stands outside of all
blocks. -/
def LeftBehind (program : List String) (n : Nat) (x : String) (t : ValueType) : Prop :=
  ∃ m f, m < n ∧ Enters program m f ∧ Nesting.before program m = 0 ∧ ⟨x, t⟩ ∈ f.params ∧
    ∀ l g, m < l → l < n → ¬ Enters program l g

section

variable {program : List String} {n : Nat} {x : String} {t : ValueType}

theorem CreatedOutside.binds (h : CreatedOutside program n x t) :
    ∃ m, Introduces program m 0 x t ∧ Stands program m n 0 := by
  obtain ⟨m, text, hmn, htext, hzero, hacc, hd, halone⟩ := h
  exact ⟨m, ⟨text, htext, hacc, .inl ⟨hd, hzero.symm⟩⟩, hmn, fun _ _ _ => Nat.zero_le _, halone⟩

theorem LeftBehind.binds (h : LeftBehind program n x t) :
    ∃ m f, Enters program m f ∧ Binds program m 0 x t ∧ Stands program m n 0 := by
  obtain ⟨m, f, hmn, hf, hzero, hp, halone⟩ := h
  exact ⟨m, f, hf, hzero ▸ .parameter hf hp, hmn, fun _ _ _ => Nat.zero_le _, halone⟩

/-- No variable is both. -/
theorem LeftBehind.not_created (h : LeftBehind program n x t) :
    ¬ CreatedOutside program n x t := by
  intro hc
  obtain ⟨m, f, ⟨text, htext, hheads, -⟩, hb, hs⟩ := h.binds
  obtain ⟨m', hi, hs'⟩ := hc.binds
  obtain rfl := hs.unique hb (.introduced hi) hs'
  obtain ⟨text', htext', -, ⟨hd, -⟩ | ⟨-, -, hlevel⟩⟩ := hi
  · rw [htext] at htext'
    cases htext'
    exact absurd (hheads.leads.unique hd.leads) (by decide)
  · omega

/-- Outside of all blocks only bindings at level zero stand. -/
theorem visible_outside (hzero : Nesting.before program n = 0) :
    (before program n).scope.visible.lookup x = some t ↔
      CreatedOutside program n x t ∨ LeftBehind program n x t := by
  rw [visible_iff]
  constructor
  · rintro ⟨level, m, hb, hs⟩
    have hlevel : level = 0 := Nat.le_zero.1 (hzero ▸ hs.le_depth)
    cases hb with
    | introduced hi =>
      obtain ⟨text, htext, hacc, ⟨hd, hm⟩ | ⟨-, -, hm⟩⟩ := hi
      · exact .inl ⟨m, text, hs.above, htext, by omega, hacc, hd, hs.alone⟩
      · omega
    | parameter hf hp => exact .inr ⟨m, _, hs.above, hf, hlevel, hp, hs.alone⟩
  · rintro (hc | hl)
    · obtain ⟨m, hi, hs⟩ := hc.binds
      exact ⟨0, m, .introduced hi, hs⟩
    · obtain ⟨m, f, -, hb, hs⟩ := hl.binds
      exact ⟨0, m, hb, hs⟩

end

end Run

/-- Where no block is open, two sorts of variables can be named: those that accepted lines outside
of all blocks have declared since a function was entered last, and the parameters of that function
when its header stands outside of all blocks. So all that can be named has been declared outside of
all blocks exactly when there are no such parameters. -/
theorem visible_outside_blocks {program : List String} {n : Nat}
    (hzero : Nesting.before program n = 0) :
    (∀ x t, (Run.before program n).scope.visible.lookup x = some t ↔
      Run.CreatedOutside program n x t ∨ Run.LeftBehind program n x t) ∧
    ((∀ x t, (Run.before program n).scope.visible.lookup x = some t →
        Run.CreatedOutside program n x t) ↔ ∀ x t, ¬ Run.LeftBehind program n x t) := by
  refine ⟨fun x t => Run.visible_outside hzero, fun hall x t hl => ?_, fun hnone x t hx => ?_⟩
  · exact hl.not_created (hall x t ((Run.visible_outside hzero).2 (.inr hl)))
  · exact ((Run.visible_outside hzero).1 hx).resolve_right (hnone x t)

/-- Behind a function that has a parameter, and behind a variable that is created there. -/
theorem visible_outside_blocks_sample :
    let program := ["please define function void f(integer x) \x7b", "\x7d",
      "please create text s"]
    Nesting.before program 3 = 0 ∧
      ∀ x t, (Run.before program 3).scope.visible.lookup x = some t ↔
        Run.CreatedOutside program 3 x t ∨ Run.LeftBehind program 3 x t := by
  intro program
  have hzero : Nesting.before program 3 = 0 := by decide +kernel
  exact ⟨hzero, (visible_outside_blocks hzero).1⟩

/-- A parameter that can be named behind its function, in a program that creates no variable. -/
theorem parameter_left_behind :
    let program := ["please define function void f(integer x) \x7b", "\x7d"]
    Nesting.before program 2 = 0 ∧
      (Run.before program 2).scope.visible.lookup "x" = some .integer ∧
      program.all (fun line => ¬ Line.Leads "please create" line) = true := by
  decide +kernel

end Courtesy
