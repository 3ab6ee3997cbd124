import Courtesy.Proofs.Braces
import Courtesy.Proofs.Functions
import Courtesy.Proofs.Scoping

/-!
# Calls and the headers behind them

In a program against which nothing is told, a call names a function with exactly one header, which
stands above it and is emitted, and it passes one argument for each parameter of that header, each
of them accepted for the type of its parameter (`calls_resolve`).

The entry that a call finds has been made by a header (`Run.exists_enters`), entries stay as they
are (`Run.entry_before`), and a second header of a name is refused.
-/

namespace Courtesy

open Statement

/-! ## Arguments -/

namespace Statement

/-- The tokens are the pieces, with a comma between each two. -/
inductive Separated : List Token → List (List Token) → Prop
  | last (piece : List Token) : Separated piece [piece]
  | next (piece : List Token) {comma : Token} {tokens : List Token} {pieces : List (List Token)}
      (hcomma : comma.kind = .comma) (h : Separated tokens pieces) :
      Separated (piece ++ comma :: tokens) (piece :: pieces)

theorem Separated.consSegment {tokens : List Token} {pieces : List (List Token)}
    (h : Separated tokens pieces) (t : Token) :
    Separated (t :: tokens) (consSegment t pieces) := by
  cases h with
  | last => exact .last (t :: tokens)
  | next piece hcomma h => exact .next (t :: piece) hcomma h

theorem segments_separated (depth : Int) (tokens : List Token) :
    Separated tokens (segments depth tokens) := by
  induction tokens generalizing depth with
  | nil => exact .last []
  | cons t ts ih =>
    rw [segments]
    split
    · rename_i hcomma
      exact .next [] hcomma.1 (ih depth)
    · exact (ih (depth + depthChange t)).consSegment t

/-- The tokens are a call of `f` with the given arguments, none of which is empty. -/
def CallOf (f : Signature) (tokens : List Token) (args : List (List Token)) : Prop :=
  ∃ nameToken opening body closing, tokens = nameToken :: opening :: body ++ [closing] ∧
    nameToken.text = f.name ∧ opening.kind = .openParen ∧ closing.kind = .closeParen ∧
    (∀ arg ∈ args, arg ≠ []) ∧ ((body = [] ∧ args = []) ∨ Separated body args)

/-- There is one argument for each parameter of `f`, accepted for its type, and the code is that of
the arguments. -/
structure Passed (scope : Scope) (f : Signature) (args : List (List Token))
    (codes : List String) : Prop where
  args_length : args.length = f.params.length
  codes_length : codes.length = f.params.length
  lowers : ∀ (k : Nat) (p : Param), f.params[k]? = some p → ∃ arg code, args[k]? = some arg ∧
    codes[k]? = some code ∧ Lowers scope (Token.join arg) p.type code

/-- The code of a call. -/
def callCode (f : Signature) (codes : List String) : String :=
  Target.methodName f.name ++ "(" ++ ", ".intercalate codes ++ ")"

theorem arguments?_ok {body : List Token} {args : List (List Token)}
    (h : arguments? body = some args) :
    (∀ arg ∈ args, arg ≠ []) ∧ ((body = [] ∧ args = []) ∨ Separated body args) := by
  rcases arguments?_eq_some_iff.1 h with ⟨rfl, rfl⟩ | ⟨-, hfull, rfl⟩
  · exact ⟨by simp, .inl ⟨rfl, rfl⟩⟩
  · refine ⟨fun arg harg hnil => ?_, .inr (segments_separated 0 body)⟩
    subst hnil
    exact hfull harg

theorem argumentCodes_passed {scope : Scope} {f : Signature} {args : List (List Token)}
    {codes : List String} (hlen : args.length = f.params.length)
    (h : argumentCodes scope f args = .ok codes) : Passed scope f args codes := by
  obtain ⟨hcodes, hall⟩ := mapM_ok h
  refine ⟨hlen, ?_, fun k p hp => ?_⟩
  · rw [hcodes, List.length_zip, hlen, Nat.min_self]
  · have hk : k < args.length := by
      rw [hlen]
      exact (List.getElem?_eq_some_iff.1 hp).1
    have harg : args[k]? = some args[k] := List.getElem?_eq_getElem hk
    obtain ⟨code, hcode, hvalue⟩ :=
      hall k (args[k], p) (List.getElem?_zip_eq_some.2 ⟨harg, hp⟩)
    exact ⟨args[k], code, harg, hcode, value_lowers hvalue⟩

/-- An accepted call calls an entry of the table with one argument for each parameter. -/
theorem call_resolved {scope : Scope} {tokens : List Token} {c : Call}
    (h : call scope tokens = .ok c) :
    scope.function? c.callee.name = some c.callee ∧ ∃ args codes,
      CallOf c.callee tokens args ∧ Passed scope c.callee args codes ∧
        c.code = callCode c.callee codes := by
  obtain ⟨nameToken, opening, body, closing, args, codes, htokens, -, hopening, hclosing, hf, hargs,
    hlen, hcodes, hcode⟩ := call_ok h
  have hname := Scope.name_of_function? hf
  refine ⟨by rw [hname, hf], args, codes, ?_, argumentCodes_passed hlen hcodes, ?_⟩
  · exact ⟨nameToken, opening, body, closing, htokens, hname.symm, hopening, hclosing,
      arguments?_ok hargs⟩
  · rw [hcode, callCode, hname]

theorem valueOrCall_call {scope : Scope} {place : Place} {receiver : Receiver}
    {expected : ValueType} {first : Token} {rest : List Token} {code : String}
    (hfirst : first.kind = .call)
    (h : valueOrCall scope place receiver expected first rest = .ok code) :
    ∃ c cast, call scope rest = .ok c ∧ cast ∈ ["", "(int)"] ∧ code = cast ++ c.code := by
  rcases valueOrCall_ok h with ⟨-, c, hc, rfl | rfl⟩ | ⟨hno, -⟩
  · exact ⟨c, "", hc, by simp, String.empty_append.symm⟩
  · exact ⟨c, "(int)", hc, by simp, rfl⟩
  · exact absurd hfirst hno

end Statement

/-! ## Lines with a call -/

/-- The tokens of a line up to the name in a call, and the code in front of the call: the call is a
statement, an initial value, an assigned value, or a result. -/
inductive Line.Receives : List Token → String → Prop
  | statement {call : Token} (hcall : call.kind = .call) : Receives [call] ""
  | initial {create type name eq call : Token} (hlead : create.kind = .create)
      (hcall : call.kind = .call) :
      Receives [create, type, name, eq, call]
        (((ValueType.ofName? type.text).getD .invalid).target ++ " " ++ name.text ++ " = ")
  | assigned {name eq call : Token} (hlead : name.kind = .identifier)
      (hcall : call.kind = .call) : Receives [name, eq, call] (name.text ++ " = ")
  | returned {lead call : Token} (hlead : lead.kind = .giveBack) (hcall : call.kind = .call) :
      Receives [lead, call] "return "

namespace Step

/-- What an accepted line with a call emits. -/
theorem Accepts.calls {st : State} {text lead : String} {front rest : List Token}
    (hacc : Accepts st text) (hl : Token.ofLine text = .ok (front ++ rest))
    (hr : Line.Receives front lead) :
    ∃ c cast, call st.scope rest = .ok c ∧ cast ∈ ["", "(int)"] ∧
      (ofLine st text).emitted = st.indented [lead ++ cast ++ c.code ++ ";"] := by
  have hne : text ≠ "\x7d" := by
    rintro rfl
    rw [Token.ofLine_closeBrace] at hl
    cases hr with
    | statement hcall => cases hl; cases hcall
    | _ => cases hl
  cases hr with
  | statement hcall =>
    obtain ⟨st', o, hp, hemitted⟩ := hacc.carried hne hl
    rw [hcall] at hp
    cases hp with
    | called hok =>
      rw [marked_scope] at hok
      obtain ⟨c, hc, rfl⟩ := callStatement_ok hok
      refine ⟨c, "", hc, by simp, ?_⟩
      rw [hemitted, String.empty_append, String.empty_append]
  | initial hlead hcall =>
    obtain ⟨st', o, hp, hemitted⟩ := hacc.carried hne hl
    rw [hlead] at hp
    cases hp with
    | created hok =>
      rw [marked_scope] at hok
      obtain ⟨_, _, _, _, initial, htokens, -, -, -, -, -, hinitial, -, rfl⟩ := declaration_ok hok
      cases htokens
      rcases initialValue_ok hinitial with ⟨hnil, -⟩ | ⟨_, _, _, code, htokens, -, hcode, rfl⟩
      · cases hnil
      · cases htokens
        obtain ⟨c, cast, hc, hcast, rfl⟩ := valueOrCall_call hcall hcode
        refine ⟨c, cast, hc, hcast, ?_⟩
        rw [hemitted]
        simp only [String.append_assoc]
  | assigned hlead hcall =>
    obtain ⟨st', o, hp, hemitted⟩ := hacc.carried hne hl
    rw [hlead] at hp
    cases hp with
    | assigned hok =>
      rw [marked_scope] at hok
      obtain ⟨_, _, _, _, _, code, htokens, -, -, hcode, rfl⟩ := assignment_ok hok
      cases htokens
      obtain ⟨c, cast, hc, hcast, rfl⟩ := valueOrCall_call hcall hcode
      refine ⟨c, cast, hc, hcast, ?_⟩
      rw [hemitted]
      simp only [String.append_assoc]
  | returned hlead hcall =>
    obtain ⟨st', o, hp, hemitted⟩ := hacc.carried hne hl
    rw [hlead] at hp
    cases hp with
    | returned hok =>
      obtain ⟨-, ⟨hnil, -⟩ | ⟨_, _, _, code, htokens, hcode, rfl⟩⟩ := returnStatement_ok hok
      · cases hnil
      · cases htokens
        rw [marked_scope] at hcode
        obtain ⟨c, cast, hc, hcast, rfl⟩ := valueOrCall_call hcall hcode
        refine ⟨c, cast, hc, hcast, ?_⟩
        rw [hemitted]
        simp only [String.append_assoc]

end Step

/-! ## Headers -/

/-- The line is a header of `f`: it gives the name, the result and the parameters in their order. -/
def Line.Signs (f : Signature) (text : String) : Prop :=
  ∃ lead result name paren inner close brace,
    Token.ofLine text = .ok (lead :: result :: name :: paren :: (inner ++ [close, brace])) ∧
      lead.kind = .define ∧
      f = ⟨name.text, (ValueType.ofName? result.text).getD .invalid,
        paramPairs (inner.filter (·.kind ≠ .comma))⟩

/-- An accepted header gives the parameters of the function that it enters. -/
theorem Step.Enters.signs {st : State} {text : String} {f : Signature} (h : Enters st text f)
    (hacc : Accepts st text) : Line.Signs f text := by
  obtain ⟨first, rest, header, hl, hlead, hh, -⟩ := Line.heads_iff.1 h.1
  obtain ⟨header', hh', -, hfault, -⟩ := hacc.header hl hlead
  rw [hh] at hh'
  cases hh'
  have hf := h.entry hl hlead hh
  rw [params_listed hfault] at hf
  obtain ⟨lead, result, name, paren, close, brace, htokens, -, -, -, -, -, hname, hresult⟩ :=
    functionHeader_iff.1 hh
  rw [htokens] at hl
  cases htokens
  rw [hname, hresult] at hf
  exact ⟨first, result, name, paren, header.paramTokens, close, brace, hl, hlead, hf⟩

/-! ## Runs without a diagnostic -/

namespace Run

/-- The code of the lines in front of the line with index `k`. -/
def codeBefore (program : List String) (k : Nat) : List String :=
  (Step.ofLines { lines := program } (program.take k)).emitted

/-- The line with index `m` is the only header of `f`. -/
structure Defines (program : List String) (m : Nat) (f : Signature) : Prop where
  header : ∃ text, program[m]? = some text ∧ Line.Signs f text
  only : ∀ l, Heads program l f.name ↔ l = m

section

variable {program : List String} {k n : Nat} {text : String}

theorem codeBefore_succ (h : program[k]? = some text) :
    codeBefore program (k + 1) =
      codeBefore program k ++ (Step.ofLine (before program k) text).emitted := by
  rw [codeBefore, List.take_add_one, h, Option.toList_some, Step.ofLines_append]
  simp [codeBefore, before, Step.ofLines]

theorem codeBefore_isPrefix (program : List String) (hkn : k ≤ n) :
    codeBefore program k <+: codeBefore program n := by
  have hlines : program.take k <+: program.take n := List.take_prefix_take_left hkn
  obtain ⟨more, hmore⟩ := hlines
  rw [codeBefore, codeBefore, ← hmore, Step.ofLines_append]
  exact List.prefix_append _ _

theorem body_eq_codeBefore : (ofLines program).body = codeBefore program program.length := by
  rw [codeBefore, List.take_length]
  rfl

/-- The code of two lines stands in the code of the program in their order. -/
theorem body_split {m : Nat} {header : String} (hm : program[m]? = some header) (hmn : m < n)
    (hn : program[n]? = some text) :
    ∃ front between back, (ofLines program).body =
      front ++ (Step.ofLine (before program m) header).emitted ++ between ++
        (Step.ofLine (before program n) text).emitted ++ back := by
  obtain ⟨between, hbetween⟩ := codeBefore_isPrefix program (Nat.succ_le_of_lt hmn)
  obtain ⟨back, hback⟩ := codeBefore_isPrefix program
    (Nat.succ_le_of_lt (List.getElem?_eq_some_iff.1 hn).1)
  refine ⟨codeBefore program m, between, back, ?_⟩
  rw [body_eq_codeBefore, ← hback, codeBefore_succ hn, ← hbetween, codeBefore_succ hm]

theorem accepts_of_clean (hclean : (ofLines program).diagnostics = [])
    (hn : program[n]? = some text) : Step.Accepts (before program n) text := by
  rw [diagnostics_ofLines, List.append_eq_nil_iff, List.flatMap_eq_nil_iff] at hclean
  exact hclean.1 (text, n) (List.mk_mem_zipIdx_iff_getElem?.2 hn)

/-- Without a diagnostic, the line that enters a function is its only header. -/
theorem Enters.defines {m : Nat} {f : Signature} (hclean : (ofLines program).diagnostics = [])
    (h : Enters program m f) : Defines program m f := by
  obtain ⟨header, hm, hstep⟩ := id h
  refine ⟨⟨header, hm, hstep.signs (accepts_of_clean hclean hm)⟩, fun l => ⟨?_, ?_⟩⟩
  · rintro ⟨text, hl, hheads⟩
    obtain ⟨g, hname, hg⟩ := (accepts_of_clean hclean hl).enters hheads
    have hlater : Enters program l g := ⟨text, hl, hg⟩
    exact Nat.le_antisymm (hlater.not_above h hname.symm) (h.not_above hlater hname)
  · rintro rfl
    exact ⟨header, hm, hstep.1⟩

end

end Run

/-- Entries of the table of functions stay as they are. And in a program against which nothing is
told, a call is one of a function with a single header, which stands above; the code of the program
holds the header and, further down, the call, with one argument for each parameter of the header,
each of them accepted for the type of its parameter. -/
theorem calls_resolve (input : List String) :
    let program := Text.solidLines input
    (∀ k l name f, k ≤ l → (Run.before program k).scope.function? name = some f →
      (Run.before program l).scope.function? name = some f) ∧
    ((Run.ofLines program).diagnostics = [] →
      ∀ n text front rest lead, program[n]? = some text →
        Token.ofLine text = .ok (front ++ rest) → Line.Receives front lead →
        ∃ m f args codes cast line, m < n ∧ Run.Defines program m f ∧ CallOf f rest args ∧
          Passed (Run.before program n).scope f args codes ∧ cast ∈ ["", "(int)"] ∧
          line = lead ++ cast ++ callCode f codes ++ ";" ∧
          (Step.ofLine (Run.before program n) text).emitted =
            (Run.before program n).indented [line] ∧
          ∃ front between back, (Run.ofLines program).body =
            front ++ (Run.before program m).indented (headed (methodHead f)) ++ between ++
              (Run.before program n).indented [line] ++ back) := by
  intro program
  refine ⟨fun k l name f hkl hf => Run.entry_before hkl hf, ?_⟩
  intro hclean n text front rest lead hn hl hr
  obtain ⟨c, cast, hc, hcast, hemitted⟩ := (Run.accepts_of_clean hclean hn).calls hl hr
  obtain ⟨hf, args, codes, hcall, hpassed, hcode⟩ := call_resolved hc
  obtain ⟨m, hmn, -, hm⟩ := Run.exists_enters hf
  obtain ⟨header, hheader, hstep⟩ := id hm
  have hhead := hstep.emitted (Run.accepts_of_clean hclean hheader)
  have hbody := Run.body_split hheader hmn hn
  rw [hcode] at hemitted
  rw [hhead, hemitted] at hbody
  exact ⟨m, c.callee, args, codes, cast, _, hmn, hm.defines hclean, hcall, hpassed, hcast, rfl,
    hemitted, hbody⟩

/-- A function that calls itself. -/
theorem calls_resolve_sample :
    let input := ["please define function integer f(integer a) \x7b",
      "  thank you for returning please call f(a)", "\x7d",
      "please define function void main() \x7b", "\x7d"]
    let program := Text.solidLines input
    let text := "thank you for returning please call f(a)"
    (Run.ofLines program).diagnostics = [] ∧ program[1]? = some text ∧
      ∃ front rest lead, Token.ofLine text = .ok (front ++ rest) ∧ Line.Receives front lead ∧
        ∃ m f args codes cast line, m < 1 ∧ Run.Defines program m f ∧ CallOf f rest args ∧
          Passed (Run.before program 1).scope f args codes ∧
          line = lead ++ cast ++ callCode f codes ++ ";" ∧
          (Step.ofLine (Run.before program 1) text).emitted =
            (Run.before program 1).indented [line] := by
  intro input program text
  let lead : Token := ⟨"thank you for returning", .giveBack, 1⟩
  let call : Token := ⟨"please call", .call, 25⟩
  let rest : List Token := [⟨"f", .identifier, 37⟩, ⟨"(", .openParen, 38⟩, ⟨"a", .identifier, 39⟩,
    ⟨")", .closeParen, 40⟩]
  obtain ⟨hclean, hn, hl⟩ : (Run.ofLines program).diagnostics = [] ∧ program[1]? = some text ∧
      (Token.ofLine text).toOption = some ([lead, call] ++ rest) := by
    decide +kernel
  rw [except_toOption_eq_some] at hl
  have hr : Line.Receives [lead, call] "return " := .returned rfl rfl
  obtain ⟨m, f, args, codes, cast, line, hm, hdefines, hof, hpassed, -, hline, hemitted, -⟩ :=
    (calls_resolve input).2 hclean 1 text [lead, call] rest "return " hn hl hr
  exact ⟨hclean, hn, _, rest, _, hl, hr, m, f, args, codes, cast, line, hm, hdefines, hof, hpassed,
    hline, hemitted⟩

end Courtesy
