import Courtesy.Proofs.Scopes

/-!
# What a line changes

A line that defines no function changes little. `Line.Change` lists what an accepted one does to the
frames and what code goes with it, and `Step.Simple` what there is besides: a line without a token
and a line that is refused change nothing.
-/

namespace Courtesy

open Statement

/-! ## Lines that declare -/

namespace Line

/-- The first token of the line is the given phrase. -/
def Leads (phrase text : String) : Prop :=
  ∃ lead rest, Token.ofLine text = .ok (lead :: rest) ∧ lead.text = phrase

theorem leads_iff {phrase text : String} :
    Leads phrase text ↔
      ((Token.ofLine text).toOption.bind List.head?).map Token.text = some phrase := by
  unfold Leads
  rcases Token.ofLine text with e | (_ | ⟨lead, rest⟩)
  · simp [Except.toOption]
  · simp [Except.toOption]
  · simp [Except.toOption]

instance (phrase text : String) : Decidable (Leads phrase text) := decidable_of_iff _ leads_iff.symm

/-- The line reads `please create TYPE NAME ...`. -/
def Declares (text x : String) (t : ValueType) : Prop :=
  ∃ lead typeToken nameToken rest,
    Token.ofLine text = .ok (lead :: typeToken :: nameToken :: rest) ∧
      lead.text = "please create" ∧ ValueType.ofName? typeToken.text = some t ∧ nameToken.text = x

/-- The line reads `thank you for looping from ...`. -/
def Counts (text : String) : Prop :=
  ∃ lead second rest, Token.ofLine text = .ok (lead :: second :: rest) ∧
    lead.text = "thank you for looping" ∧ second.text = "from"

theorem kind_of_leads {phrase text : String} {first : Token} {rest : List Token}
    (h : Leads phrase text) (hl : Token.ofLine text = .ok (first :: rest)) :
    first.kind = classify phrase := by
  obtain ⟨lead, rest', hl', rfl⟩ := h
  rw [hl] at hl'
  cases hl'
  exact (Token.valid_of_ofLine hl first List.mem_cons_self).1

theorem kind_ne_define {text : String} {first : Token} {rest : List Token}
    (h : ¬ Leads "please define function" text) (hl : Token.ofLine text = .ok (first :: rest)) :
    first.kind ≠ .define := by
  intro hk
  have hvalid := (Token.valid_of_ofLine hl first List.mem_cons_self).1
  exact h ⟨first, rest, hl, text_of_define (hvalid.symm.trans hk)⟩

theorem Leads.unique {phrase phrase' text : String} (h : Leads phrase text)
    (h' : Leads phrase' text) : phrase = phrase' := by
  rw [leads_iff] at h h'
  rw [h] at h'
  exact Option.some.inj h'

theorem Leads.ne_closing {phrase text : String} (h : Leads phrase text)
    (hphrase : phrase ≠ "\x7d") : text ≠ "\x7d" := by
  rintro rfl
  obtain ⟨lead, rest, hl, rfl⟩ := h
  rw [Token.ofLine_closeBrace] at hl
  cases hl
  exact hphrase rfl

theorem Declares.leads {text x : String} {t : ValueType} (h : Declares text x t) :
    Leads "please create" text := by
  obtain ⟨lead, _, _, _, hl, hlead, -⟩ := h
  exact ⟨lead, _, hl, hlead⟩

theorem Declares.unique {text x x' : String} {t t' : ValueType} (h : Declares text x t)
    (h' : Declares text x' t') : x = x' ∧ t = t' := by
  obtain ⟨_, _, _, _, hl, -, ht, rfl⟩ := h
  obtain ⟨_, _, _, _, hl', -, ht', rfl⟩ := h'
  rw [hl] at hl'
  cases hl'
  rw [ht] at ht'
  exact ⟨rfl, Option.some.inj ht'⟩

theorem Counts.leads {text : String} (h : Counts text) : Leads "thank you for looping" text := by
  obtain ⟨lead, _, _, hl, hlead, -⟩ := h
  exact ⟨lead, _, hl, hlead⟩

/-- What an accepted line that defines no function makes of the frames, and the block that it opens
or the code that it yields. -/
inductive Change (text : String) (tokens : List Token) (frames : List Variables) :
    List Variables → Opening → Prop
  | declares {x : String} {t : ValueType} {line : String} (h : Declares text x t) :
      Change text tokens frames (((x, t) :: frames.headD []) :: frames.tail) ⟨[line], []⟩
  | counts {head : String} (hbrace : ∃ t ∈ tokens, t.kind = .openBrace) (h : Counts text) :
      Change text tokens frames frames ⟨headed head, [⟨counter, .integer⟩]⟩
  | opens {head : String} (hbrace : ∃ t ∈ tokens, t.kind = .openBrace)
      (h : Leads "thank you for checking if" text ∨ Leads "thank you for looping" text)
      (hcounts : ¬ Counts text) : Change text tokens frames frames ⟨headed head, []⟩
  | keeps {line : String} (hcreate : ¬ Leads "please create" text)
      (hloop : ¬ Leads "thank you for looping" text)
      (hcheck : ¬ Leads "thank you for checking if" text) :
      Change text tokens frames frames ⟨[line], []⟩

end Line

/-! ## Statements that are carried out -/

namespace Statement

section

variable {st st' : State} {text : String} {first : Token} {rest : List Token} {o : Opening}

theorem declaration_change (hl : Token.ofLine text = .ok (first :: rest))
    (hk : first.kind = .create) {scope : Scope} {line : String}
    (hok : declaration st.scope (first :: rest) = .ok (scope, line)) :
    ∃ frames, scope = { st.scope with frames := frames } ∧
      Line.Change text (first :: rest) st.scope.frames frames ⟨[line], []⟩ := by
  obtain ⟨lead, typeToken, nameToken, rest', initial, htokens, htype, -, hfree, -, -, -, rfl, -⟩ :=
    declaration_ok hok
  cases htokens
  have hvalid := Token.valid_of_ofLine hl
  have hmem : typeToken ∈ first :: typeToken :: nameToken :: rest' := by simp
  obtain ⟨type, htype⟩ := ofName?_of_typeName ((hvalid typeToken hmem).1.symm.trans htype)
  have hcreate := text_of_create ((hvalid first List.mem_cons_self).1.symm.trans hk)
  rw [htype, Option.getD_some, Scope.declare_fresh hfree]
  exact ⟨_, rfl, .declares ⟨first, typeToken, nameToken, rest', hl, hcreate, htype, rfl⟩⟩

theorem loop_change (hl : Token.ofLine text = .ok (first :: rest)) (hk : first.kind = .loop)
    (hok : loop st.scope (first :: rest) = .ok o) :
    Line.Change text (first :: rest) st.scope.frames st.scope.frames o := by
  have hvalid := Token.valid_of_ofLine hl
  have hloop := text_of_loop ((hvalid first List.mem_cons_self).1.symm.trans hk)
  rcases loop_ok hok with hfor | ⟨hwhile, hno⟩
  · obtain ⟨lead, second, rest', lo, hi, htokens, hfrom, hbrace, -, -, rfl⟩ := forLoop_ok hfor
    cases htokens
    have hsecond : second ∈ first :: second :: rest' := by simp
    have hfrom := text_of_fromWord ((hvalid second hsecond).1.symm.trans hfrom)
    exact .counts hbrace ⟨first, second, rest', hl, hloop, hfrom⟩
  · obtain ⟨hbrace, cond, rfl⟩ := whileLoop_ok hwhile
    refine .opens hbrace (.inr ⟨first, rest, hl, hloop⟩) ?_
    rintro ⟨lead, second, rest', hl', -, hsecond⟩
    rw [hl] at hl'
    cases hl'
    have hmem : second ∈ first :: second :: rest' := by simp
    refine hno second hmem ?_
    rw [(hvalid second hmem).1, hsecond]
    rfl

theorem ifStatement_change (hl : Token.ofLine text = .ok (first :: rest))
    (hk : first.kind = .check) (hok : ifStatement st.scope (first :: rest) = .ok o) :
    Line.Change text (first :: rest) st.scope.frames st.scope.frames o := by
  have hvalid := Token.valid_of_ofLine hl
  have hcheck := text_of_check ((hvalid first List.mem_cons_self).1.symm.trans hk)
  have hleads : Line.Leads "thank you for checking if" text := ⟨first, rest, hl, hcheck⟩
  obtain ⟨hbrace, cond, rfl⟩ := ifStatement_ok hok
  refine .opens hbrace (.inl hleads) fun hcounts => ?_
  exact absurd (hleads.unique hcounts.leads) (by decide)

theorem line_change (hl : Token.ofLine text = .ok (first :: rest))
    (hk : first.kind ∈ [Kind.identifier, .print, .call, .giveBack]) (frames : List Variables)
    (line : String) : Line.Change text (first :: rest) frames frames ⟨[line], []⟩ := by
  have notLead : ∀ {phrase}, classify phrase ∉ [Kind.identifier, .print, .call, .giveBack] →
      ¬ Line.Leads phrase text := by
    intro phrase hno hlead
    rw [← Line.kind_of_leads hlead hl] at hno
    exact hno hk
  exact .keeps (notLead (by decide)) (notLead (by decide)) (notLead (by decide))

/-- An accepted statement changes the frames, and a return what is settled. -/
theorem Performed.change (hl : Token.ofLine text = .ok (first :: rest))
    (hdef : first.kind ≠ .define)
    (h : Performed st (first :: rest) first.kind ⟨st', .ok o⟩) :
    ∃ frames settled,
      st' = { st with settled := settled, scope := { st.scope with frames := frames } } ∧
        Line.Change text (first :: rest) st.scope.frames frames o ∧
        (¬ Line.Leads "thank you for returning" text → settled = st.settled) := by
  generalize hk : first.kind = kind at h hdef
  generalize hout : (⟨st', .ok o⟩ : Outcome) = outcome at h
  cases h with
  | defined => exact absurd rfl hdef
  | refused _ _ => cases hout
  | created hok =>
    cases hout
    obtain ⟨frames, rfl, hchange⟩ := declaration_change hl hk hok
    exact ⟨frames, _, rfl, hchange, fun _ => rfl⟩
  | looped hok =>
    cases hout
    exact ⟨_, _, rfl, loop_change hl hk hok, fun _ => rfl⟩
  | checked hok =>
    cases hout
    exact ⟨_, _, rfl, ifStatement_change hl hk hok, fun _ => rfl⟩
  | returned _ =>
    cases hout
    refine ⟨_, _, rfl, line_change hl (by simp [hk]) _ _, fun hno => absurd ?_ hno⟩
    have hvalid := (Token.valid_of_ofLine hl first List.mem_cons_self).1
    exact ⟨first, rest, hl, text_of_giveBack (hvalid.symm.trans hk)⟩
  | _ =>
    cases hout
    exact ⟨_, _, rfl, line_change hl (by simp [hk]) _ _, fun _ => rfl⟩

end

end Statement

/-! ## Lines that define no function -/

namespace Step

/-- The ways in which a line that is no closing brace and defines no function can be read. -/
inductive Simple (st : State) (text : String) : Step × List Param → Prop
  | blank (h : Token.ofLine text = .ok []) : Simple st text ({ state := st }, [])
  | refused (d : Diagnostic) (infos : List String) :
      Simple st text ({ state := st, events := .fault d :: infos.map .info }, [])
  | carried {first : Token} {rest : List Token} {frames : List Variables} {settled : List String}
      {st' : State} {o : Opening} (info : String)
      (hstate : st' = { st with settled := settled, scope := { st.scope with frames := frames } })
      (h : Token.ofLine text = .ok (first :: rest))
      (hp : Performed st (first :: rest) first.kind ⟨st', .ok o⟩)
      (hchange : Line.Change text (first :: rest) st.scope.frames frames o)
      (hsettled : ¬ Line.Leads "thank you for returning" text → settled = st.settled) :
      Simple st text (⟨st', st.indented o.code, [.info info]⟩, o.vars)

theorem Reading.simple {st : State} {text : String} {r : Step × List Param}
    (h : Reading st text r) (hdef : ¬ Line.Leads "please define function" text) :
    Simple st text r := by
  cases h with
  | blank hl => exact .blank hl
  | unread d infos _ => exact .refused d infos
  | rejected info hl hp =>
    cases hp.state_of_error (Line.kind_ne_define hdef hl)
    exact .refused _ [info]
  | accepted info hl hp =>
    obtain ⟨frames, settled, hstate, hchange, hsettled⟩ :=
      hp.change hl (Line.kind_ne_define hdef hl)
    exact .carried info hstate hl hp hchange hsettled

end Step

end Courtesy
