import Courtesy.Proofs.Visibility

/-!
# Variables and functions of one name

Whatever introduces a name looks at both tables first: a declaration, a counting loop and a
parameter are refused when a function has the name, and a header drops the variables around it. The
one pair that is not compared is a parameter and the function of the same header, which is entered
behind its parameters. So a variable can be named that has the name of a function just where it is a
parameter of this function itself, as long as it stands (`shared_name_iff`).
-/

namespace Courtesy

open Statement

namespace Statement

/-- A parameter is refused when it has the name of a function of the table. -/
theorem params_not_function {s : Scope} {first : Bool} {tokens : List Token} {p : Param}
    (hp : p ∈ (params s first tokens).params) : s.function? p.name = none := by
  have step : ∀ {s : Scope} {a b : Token} {q : Param} {rest : List Param}, param s a b = .ok q →
      (p ∈ rest → (s.declare q.name q.type).function? p.name = none) → p ∈ q :: rest →
      s.function? p.name = none := by
    intro s a b q rest hq ih hp
    rcases List.mem_cons.1 hp with rfl | hp
    · exact Scope.isFunction_eq_false_iff.1 (param_ok hq).2.2.2.1
    · have hrest := ih hp
      rwa [Scope.function?, Scope.functions_declare] at hrest
  fun_induction params s first tokens with
  | case6 s first a b hc c rest q hq more ih => exact step hq ih hp
  | case8 s first a b rest hc q hq more ih => exact step hq ih hp
  | _ => cases hp

end Statement

/-- No parameter of a function that is entered has the name of a function of the table. -/
theorem Step.Enters.param_not_function {st : State} {text : String} {f : Signature}
    (h : Enters st text f) {p : Param} (hp : p ∈ f.params) : st.scope.function? p.name = none := by
  obtain ⟨first, rest, header, hl, hlead, hh, -⟩ := Line.heads_iff.1 h.1
  rw [h.entry hl hlead hh] at hp
  exact params_not_function (s := st.scope.enterFunction) hp

namespace Run

section

variable {program : List String} {m n level : Nat} {x : String} {t : ValueType} {f : Signature}

/-- No line binds the name of a function of the table. -/
theorem Binds.not_function (h : Binds program m level x t) :
    (before program m).scope.function? x = none := by
  cases h with
  | introduced hi => exact Scope.isFunction_eq_false_iff.1 hi.fresh.2
  | parameter he hp =>
    obtain ⟨text, -, henters⟩ := he
    exact henters.param_not_function hp

/-- A binding and a function of its name go together only if one line makes both. -/
theorem Stands.enters (hb : Binds program m level x t) (hs : Stands program m n level)
    (hf : (before program n).scope.function? x = some f) : f.name = x ∧ Enters program m f := by
  obtain ⟨k, hkn, hname, hk⟩ := exists_enters hf
  have hmk : m ≤ k := by
    apply Nat.le_of_not_lt
    intro hkm
    obtain ⟨text, htext, -, -, hentry⟩ := hk
    rw [← before_succ htext, hname] at hentry
    have hnone := hb.not_function
    rw [entry_before hkm hentry] at hnone
    cases hnone
  rcases Nat.lt_or_eq_of_le hmk with hmk | rfl
  · exact absurd hk (hs.alone k f hmk hkn)
  · exact ⟨hname, hk⟩

end

/-- The line with index `m` is the first header of `f`, a parameter of `f` bears the name of the
function itself, and the parameters of `f` can still be named before the line with index `n`. -/
structure NamesItself (program : List String) (n m : Nat) (f : Signature) (t : ValueType) :
    Prop where
  enters : Enters program m f
  param : ⟨f.name, t⟩ ∈ f.params
  stands : Stands program m n (Nesting.before program m)

end Run

/-- Before every line of every program, and behind the last one, a variable can be named that has
the name of a function of the table exactly when it is a parameter of this function itself, whose
header is the last one that has entered a function. So the names are apart exactly when no such
parameter stands. -/
theorem shared_name_iff (program : List String) (n : Nat) :
    let scope := (Run.before program n).scope
    (∀ x t f, scope.visible.lookup x = some t ∧ scope.function? x = some f ↔
      f.name = x ∧ ∃ m, Run.NamesItself program n m f t) ∧
    ((∀ x t, scope.visible.lookup x = some t → scope.function? x = none) ↔
      ∀ m f t, ¬ Run.NamesItself program n m f t) := by
  intro scope
  have shared : ∀ x t f, scope.visible.lookup x = some t ∧ scope.function? x = some f ↔
      f.name = x ∧ ∃ m, Run.NamesItself program n m f t := by
    intro x t f
    constructor
    · rintro ⟨hx, hf⟩
      obtain ⟨level, m, hb, hs⟩ := Run.visible_iff.1 hx
      obtain ⟨rfl, he⟩ := hs.enters hb hf
      obtain ⟨hp, rfl⟩ := he.param_of_binds hb
      exact ⟨rfl, m, he, hp, hs⟩
    · rintro ⟨rfl, m, he, hp, hs⟩
      refine ⟨Run.visible_iff.2 ⟨_, m, .parameter he hp, hs⟩, ?_⟩
      obtain ⟨text, htext, -, -, hentry⟩ := he
      rw [← Run.before_succ htext] at hentry
      exact Run.entry_before hs.above hentry
  refine ⟨shared, fun hapart m f t hown => ?_, fun hnone x t hx => ?_⟩
  · obtain ⟨hx, hf⟩ := (shared f.name t f).2 ⟨rfl, m, hown⟩
    rw [hapart f.name t hx] at hf
    cases hf
  · cases hf : scope.function? x with
    | none => rfl
    | some f =>
      obtain ⟨-, m, hown⟩ := (shared x t f).1 ⟨hx, hf⟩
      exact absurd hown (hnone m f t)

/-- A function and its parameter of the same name, both of which can be named behind the header. -/
theorem parameter_named_as_function :
    let scope := (Run.before ["please define function void f(integer f) \x7b"] 1).scope
    scope.visible.lookup "f" = some .integer ∧
      scope.function? "f" = some ⟨"f", .void, [⟨"f", .integer⟩]⟩ := by
  decide +kernel

end Courtesy
