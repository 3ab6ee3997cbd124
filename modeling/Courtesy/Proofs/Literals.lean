import Courtesy.Proofs.Rendering

/-!
# String literals

A declaration, an assignment, a return or a call quotes what its line quotes, in order. Each literal
goes through the spacing of expressions on its way, which parts an operator word from a digit right
behind it, inside of quotes as well as outside. A literal is kept as it stands exactly when no such
word occurs in it (`quotations_of_accepted`).
-/

namespace Courtesy

open Text Statement

/-- The texts between the quotes of a line, in order. -/
def Text.quotations (line : String) : List String := (quoted line.toList).map String.ofList

namespace Token

/-- The text between the quotes of a string. -/
def content (t : Token) : String := String.ofList t.text.toList.tail.dropLast

/-- What the strings among tokens quote, in order. -/
def literals (ts : List Token) : List String := (ts.filter (·.kind = .string)).map content

theorem literals_eq {ts : List Token} (hts : ∀ t ∈ ts, t.Sound) :
    literals ts = (ts.flatMap (quoted ·.text.toList)).map String.ofList := by
  induction ts with
  | nil => rfl
  | cons t ts ih =>
    rw [List.flatMap_cons, List.map_append, ← ih fun u hu => hts u (List.mem_cons_of_mem t hu)]
    rcases (hts t List.mem_cons_self).shape with ⟨hk, body, hb, htext⟩ | ⟨hk, hp⟩
    · have hquoted : quoted t.text.toList = [body] := by
        rw [htext]
        exact quoted_literal (p := []) plain_nil hb []
      have hcontent : content t = String.ofList body := by
        rw [content, htext, List.tail_cons, List.dropLast_concat]
      rw [hquoted, literals, List.filter_cons_of_pos (by simpa using hk), List.map_cons, hcontent]
      rfl
    · rw [quoted_plain hp, literals, List.filter_cons_of_neg (by simpa using hk)]
      rfl

end Token

namespace Expression

/-- A text with its operator words parted from the digits behind them. -/
def respaced (s : String) : String := String.ofList (respace false s.toList)

theorem respaced_eq_self_iff {s : String} : respaced s = s ↔ ¬ RunsOn false s.toList := by
  rw [← respace_eq_self_iff, ← String.toList_inj, respaced, String.toList_ofList]

end Expression

theorem map_eq_self_iff {α : Type} {f : α → α} {xs : List α} :
    xs.map f = xs ↔ ∀ x ∈ xs, f x = x := by
  induction xs with
  | nil => simp
  | cons x xs ih => rw [List.map_cons, List.cons.injEq, ih, List.forall_mem_cons]

namespace Step

/-- The line of code of an accepted statement without a block. -/
theorem rendered_ofLine {st : State} {text : String} {first : Token} {rest : List Token}
    (hl : Token.ofLine text = .ok (first :: rest))
    (hk : first.kind ∈ [Kind.create, .identifier, .giveBack, .call]) (hacc : Accepts st text) :
    ∃ line, (ofLine st text).emitted = [Target.indent st.indent ++ line] ∧
      Rendered (first :: rest) line := by
  have hne : text ≠ "\x7d" := by
    rintro rfl
    rw [Token.ofLine_closeBrace] at hl
    cases hl
    exact absurd hk (by decide)
  obtain ⟨st', o, info, hp, hperform⟩ := hacc.performed hne hl
  obtain ⟨line, hline, hrendered⟩ := hp.rendered (Token.sound_of_ofLine hl) hk
  refine ⟨line, ?_, hrendered⟩
  rw [ofLine_statement hne, hperform]
  dsimp only
  rw [hline]
  rfl

end Step

/-- An accepted declaration, assignment, return or call yields one line. It quotes the literals of
the source line in order, each with its operator words parted from digits; they are all kept as they
stand exactly when in none of them an operator word runs into a digit. -/
theorem quotations_of_accepted {st : State} {text : String} {first : Token} {rest : List Token}
    (hl : Token.ofLine text = .ok (first :: rest))
    (hk : first.kind ∈ [Kind.create, .identifier, .giveBack, .call])
    (hacc : Step.Accepts st text) :
    ∃ line, (Step.ofLine st text).emitted = [line] ∧
      quotations line = (Token.literals (first :: rest)).map Expression.respaced ∧
      (quotations line = Token.literals (first :: rest) ↔
        ∀ s ∈ Token.literals (first :: rest), ¬ Expression.RunsOn false s.toList) := by
  obtain ⟨line, hline, hrendered⟩ := Step.rendered_ofLine hl hk hacc
  have hquotations : quotations (Target.indent st.indent ++ line) =
      (Token.literals (first :: rest)).map Expression.respaced := by
    rw [quotations, String.toList_append, quoted_plain_append (Target.indent_plain st.indent),
      hrendered.quoted, Token.literals_eq (Token.sound_of_ofLine hl), List.map_map, List.map_map]
    refine List.map_congr_left fun s _ => ?_
    simp only [Function.comp_apply, Expression.respaced, String.toList_ofList]
  refine ⟨_, hline, hquotations, ?_⟩
  rw [hquotations, map_eq_self_iff]
  exact forall_congr' fun s => imp_congr_right fun _ => Expression.respaced_eq_self_iff

/-- One literal is changed and the other is kept. -/
theorem quotations_of_accepted_sample :
    ∃ line, (Step.ofLine {} "please create text s equals \"add5\" add \"6\"").emitted = [line] ∧
      quotations line = ["add5", "6"].map Expression.respaced ∧
      (quotations line = ["add5", "6"] ↔
        ∀ s ∈ ["add5", "6"], ¬ Expression.RunsOn false s.toList) := by
  let first : Token := ⟨"please create", .create, 1⟩
  let rest : List Token :=
    [⟨"text", .typeName, 15⟩, ⟨"s", .identifier, 20⟩, ⟨"equals", .equals, 22⟩,
    ⟨"\"add5\"", .string, 29⟩, ⟨"add", .identifier, 36⟩, ⟨"\"6\"", .string, 40⟩]
  obtain ⟨hl, hlits, hacc⟩ :
      (Token.ofLine "please create text s equals \"add5\" add \"6\"").toOption =
        some (first :: rest) ∧
      Token.literals (first :: rest) = ["add5", "6"] ∧
      Step.Accepts {} "please create text s equals \"add5\" add \"6\"" := by
    unfold Step.Accepts
    decide +kernel
  rw [← hlits]
  exact quotations_of_accepted (except_toOption_eq_some.1 hl) (by decide) hacc

/-- A literal does not come out as it went in. -/
theorem literal_spaced :
    let text := "please create text s equals \"add5\""
    let st := Run.before [text] 0
    (Token.ofLine text).map Token.literals = .ok ["add5"] ∧ Step.Accepts st text ∧
      (Step.ofLine st text).emitted.flatMap quotations = ["add 5"] := by
  intro text st
  rw [Step.Accepts, ← except_toOption_eq_some]
  decide +kernel

end Courtesy
