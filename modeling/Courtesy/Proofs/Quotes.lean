import Courtesy.Text.Pieces

/-!
# Quotes in a text

Quotes cut a text into pieces that lie outside and inside of them by turns. `quoted` collects the
pieces inside, `bare` the characters outside. A text is `Closed` when every quote in it has its
partner; closed texts can be joined without mixing the two (`quoted_append`, `bare_append`).

`Cut` says how a reader takes a text apart from the left: it passes over gaps, and each piece that
it takes is free of quotes or a whole literal. What is read off the pieces is then what can be read
off the text (`Cut.flatMap`).
-/

namespace Courtesy.Text

/-- A text without a quote. -/
def Plain (cs : List Char) : Prop := '"' ∉ cs

instance (cs : List Char) : Decidable (Plain cs) := inferInstanceAs (Decidable ('"' ∉ cs))

/-- Every second piece, as far as another piece follows it. -/
def insides : List (List Char) → List (List Char)
  | _ :: inside :: outside :: rest => inside :: insides (outside :: rest)
  | _ => []

/-- The other pieces, as one text. -/
def outsides : List (List Char) → List Char
  | outside :: _ :: rest => outside ++ outsides rest
  | [outside] => outside
  | [] => []

/-- The segments of a text that stand between quotes, in order. -/
def quoted (cs : List Char) : List (List Char) := insides (split (· == '"') cs)

/-- The characters of a text that stand outside of quotes. -/
def bare (cs : List Char) : List Char := outsides (split (· == '"') cs)

/-- A text in which every quote has its partner. -/
inductive Closed : List Char → Prop
  | plain {p : List Char} (h : Plain p) : Closed p
  | literal {p body rest : List Char} (hp : Plain p) (hb : Plain body) (h : Closed rest) :
      Closed (p ++ '"' :: (body ++ '"' :: rest))

/-! ## Plain texts -/

section Plain

variable {a b p : List Char} {c : Char}

@[simp] theorem plain_nil : Plain [] := List.not_mem_nil

theorem plain_cons : Plain (c :: a) ↔ c ≠ '"' ∧ Plain a := by
  simp [Plain, eq_comm]

theorem plain_append : Plain (a ++ b) ↔ Plain a ∧ Plain b := by
  simp [Plain]

theorem Plain.of_subset (h : Plain b) (hs : a ⊆ b) : Plain a := fun hm => h (hs hm)

theorem split_plain (h : Plain p) : split (· == '"') p = [p] := by
  induction p with
  | nil => rfl
  | cons c p ih =>
    obtain ⟨hc, hp⟩ := plain_cons.1 h
    rw [split_cons, if_neg (by simpa using hc), ih hp]
    rfl

theorem split_plain_quote (h : Plain p) (cs : List Char) :
    split (· == '"') (p ++ '"' :: cs) = p :: split (· == '"') cs := by
  induction p with
  | nil => rfl
  | cons c p ih =>
    obtain ⟨hc, hp⟩ := plain_cons.1 h
    rw [List.cons_append, split_cons, if_neg (by simpa using hc), ih hp]
    rfl

theorem split_ne_nil (q : Char → Bool) (cs : List Char) : split q cs ≠ [] := by
  cases cs with
  | nil => simp
  | cons c cs =>
    rw [split_cons]
    split
    · simp
    · cases split q cs <;> simp [consPiece]

theorem takeWhile_plain_quote (h : Plain p) (cs : List Char) :
    (p ++ '"' :: cs).takeWhile (· != '"') = p := by
  rw [List.takeWhile_append_of_pos]
  · simp
  · intro c hc
    have : c ≠ '"' := by
      rintro rfl
      exact h hc
    simpa using this

end Plain

/-! ## Pieces inside and outside -/

section

variable {a b p body rest : List Char}

theorem quoted_plain (h : Plain p) : quoted p = [] := by
  rw [quoted, split_plain h]
  rfl

theorem bare_plain (h : Plain p) : bare p = p := by
  rw [bare, split_plain h]
  rfl

theorem quoted_literal (hp : Plain p) (hb : Plain body) (rest : List Char) :
    quoted (p ++ '"' :: (body ++ '"' :: rest)) = body :: quoted rest := by
  obtain ⟨w, ws, hw⟩ := List.exists_cons_of_ne_nil (split_ne_nil (· == '"') rest)
  rw [quoted, quoted, split_plain_quote hp, split_plain_quote hb, hw]
  rfl

theorem bare_literal (hp : Plain p) (hb : Plain body) (rest : List Char) :
    bare (p ++ '"' :: (body ++ '"' :: rest)) = p ++ bare rest := by
  rw [bare, split_plain_quote hp, split_plain_quote hb]
  rfl

theorem insides_consPiece (c : Char) (ws : List (List Char)) :
    insides (consPiece c ws) = insides ws := by
  rcases ws with - | ⟨w, - | ⟨x, - | ⟨y, ws⟩⟩⟩ <;> rfl

theorem outsides_consPiece (c : Char) (ws : List (List Char)) :
    outsides (consPiece c ws) = c :: outsides ws := by
  rcases ws with - | ⟨w, - | ⟨x, ws⟩⟩ <;> rfl

theorem quoted_plain_append (hp : Plain p) (b : List Char) : quoted (p ++ b) = quoted b := by
  induction p with
  | nil => rfl
  | cons c p ih =>
    obtain ⟨hc, hp⟩ := plain_cons.1 hp
    rw [← ih hp, quoted, List.cons_append, split_cons, if_neg (by simpa using hc), quoted,
      insides_consPiece]

theorem bare_plain_append (hp : Plain p) (b : List Char) : bare (p ++ b) = p ++ bare b := by
  induction p with
  | nil => rfl
  | cons c p ih =>
    obtain ⟨hc, hp⟩ := plain_cons.1 hp
    rw [List.cons_append, List.cons_append, ← ih hp, bare, split_cons,
      if_neg (by simpa using hc), bare, outsides_consPiece]

theorem quoted_append (ha : Closed a) (b : List Char) : quoted (a ++ b) = quoted a ++ quoted b := by
  induction ha with
  | plain hp => rw [quoted_plain_append hp, quoted_plain hp, List.nil_append]
  | literal hp hb _ ih =>
    rw [List.append_assoc, List.cons_append, List.append_assoc, List.cons_append,
      quoted_literal hp hb, quoted_literal hp hb, ih, List.cons_append]

theorem bare_append (ha : Closed a) (b : List Char) : bare (a ++ b) = bare a ++ bare b := by
  induction ha with
  | plain hp => rw [bare_plain_append hp, bare_plain hp]
  | literal hp hb _ ih =>
    rw [List.append_assoc, List.cons_append, List.append_assoc, List.cons_append,
      bare_literal hp hb, bare_literal hp hb, ih, List.append_assoc]

/-! ## Closed texts -/

theorem Closed.append (ha : Closed a) (hb : Closed b) : Closed (a ++ b) := by
  induction ha with
  | plain hp =>
    cases hb with
    | plain hq => exact .plain (plain_append.2 ⟨hp, hq⟩)
    | literal hq hbody hrest =>
      rw [← List.append_assoc]
      exact .literal (plain_append.2 ⟨hp, hq⟩) hbody hrest
  | literal hp hbody _ ih =>
    rw [List.append_assoc, List.cons_append, List.append_assoc, List.cons_append]
    exact .literal hp hbody ih

/-- A literal alone. -/
theorem closed_literal (hb : Plain body) : Closed ('"' :: (body ++ ['"'])) :=
  .literal (p := []) plain_nil hb (.plain plain_nil)

/-- A text cannot be closed by a single quote. -/
theorem not_closed_quote_plain (hb : Plain body) : ¬ Closed ('"' :: body) := by
  intro h
  generalize ht : '"' :: body = t at h
  cases h with
  | plain hp =>
    subst ht
    exact (plain_cons.1 hp).1 rfl
  | @literal p inner rest hp hi hr =>
    cases p with
    | nil =>
      cases ht
      exact hb (by simp)
    | cons c p =>
      cases ht
      exact (plain_cons.1 hp).1 rfl

theorem Closed.of_plain_append (hp : Plain p) (h : Closed (p ++ b)) : Closed b := by
  induction p with
  | nil => exact h
  | cons c p ih =>
    refine ih (plain_cons.1 hp).2 ?_
    generalize ht : c :: p ++ b = t at h
    cases h with
    | plain hq =>
      subst ht
      exact .plain (plain_cons.1 hq).2
    | @literal q body rest hq hbody hr =>
      cases q with
      | nil =>
        obtain ⟨rfl, -⟩ := List.cons.inj ht
        exact absurd rfl (plain_cons.1 hp).1
      | cons d q =>
        rw [List.cons_append, List.cons_append] at ht
        obtain ⟨-, ht⟩ := List.cons.inj ht
        rw [ht]
        exact .literal (plain_cons.1 hq).2 hbody hr

theorem Closed.of_literal_append (hb : Plain body) (h : Closed ('"' :: (body ++ '"' :: rest))) :
    Closed rest := by
  generalize ht : '"' :: (body ++ '"' :: rest) = t at h
  cases h with
  | plain hp =>
    subst ht
    exact absurd rfl (plain_cons.1 hp).1
  | @literal p inner rest' hp hi hr =>
    cases p with
    | nil =>
      obtain ⟨-, ht⟩ := List.cons.inj ht
      have hbody : body = inner := by
        rw [← takeWhile_plain_quote hb rest, ht, takeWhile_plain_quote hi]
      rw [hbody, List.append_cancel_left_eq, List.cons.injEq] at ht
      rw [ht.2]
      exact hr
    | cons c p =>
      obtain ⟨rfl, -⟩ := List.cons.inj ht
      exact absurd rfl (plain_cons.1 hp).1

theorem Closed.plain_of_quoted (h : Closed a) (hq : quoted a = []) : Plain a := by
  cases h with
  | plain hp => exact hp
  | literal hp hb _ =>
    rw [quoted_literal hp hb] at hq
    cases hq

end

/-- What is read off a text adds up over closed texts. -/
def Additive {α : Type} (f : List Char → List α) : Prop :=
  ∀ a b, Closed a → f (a ++ b) = f a ++ f b

theorem Additive.nil {α : Type} {f : List Char → List α} (hf : Additive f) : f [] = [] := by
  have := hf [] [] (.plain plain_nil)
  rw [List.append_nil] at this
  exact List.self_eq_append_left.1 this

theorem additive_quoted : Additive quoted := fun _ b ha => quoted_append ha b

theorem additive_filter_bare (c : Char) : Additive fun cs => (bare cs).filter (· == c) := by
  intro a b ha
  simp only [bare_append ha, List.filter_append]

/-! ## Joined texts -/

theorem toList_intercalate_cons_cons (sep t u : String) (ts : List String) :
    (sep.intercalate (t :: u :: ts)).toList =
      t.toList ++ (sep.toList ++ (sep.intercalate (u :: ts)).toList) := by
  rw [String.intercalate_cons_cons, String.toList_append, String.toList_append, List.append_assoc]

/-- The text behind the first of several texts that are joined by spaces. -/
def joinedTail : List String → List Char
  | [] => []
  | t :: ts => ' ' :: (spaced (t :: ts)).toList

theorem toList_spaced (t : String) (ts : List String) :
    (spaced (t :: ts)).toList = t.toList ++ joinedTail ts := by
  cases ts with
  | nil => simp [spaced, joinedTail]
  | cons u ts => exact toList_intercalate_cons_cons " " t u ts

theorem plain_intercalate {sep : String} (hsep : Plain sep.toList) {ts : List String}
    (h : ∀ t ∈ ts, Plain t.toList) : Plain (sep.intercalate ts).toList := by
  match ts with
  | [] => exact plain_nil
  | [t] =>
    rw [String.intercalate_singleton]
    exact h t List.mem_cons_self
  | t :: u :: ts =>
    rw [toList_intercalate_cons_cons]
    refine plain_append.2 ⟨h t List.mem_cons_self, plain_append.2 ⟨hsep, ?_⟩⟩
    exact plain_intercalate hsep fun v hv => h v (List.mem_cons_of_mem t hv)

theorem closed_intercalate {sep : String} (hsep : Plain sep.toList) {ts : List String}
    (h : ∀ t ∈ ts, Closed t.toList) : Closed (sep.intercalate ts).toList := by
  match ts with
  | [] => exact .plain plain_nil
  | [t] =>
    rw [String.intercalate_singleton]
    exact h t List.mem_cons_self
  | t :: u :: ts =>
    rw [toList_intercalate_cons_cons]
    refine (h t List.mem_cons_self).append (.append (.plain hsep) ?_)
    exact closed_intercalate hsep fun v hv => h v (List.mem_cons_of_mem t hv)

theorem Additive.intercalate {α : Type} {f : List Char → List α} (hf : Additive f) {sep : String}
    (hsep : Plain sep.toList) (hs : f sep.toList = []) {ts : List String}
    (h : ∀ t ∈ ts, Closed t.toList) :
    f (sep.intercalate ts).toList = ts.flatMap (f ·.toList) := by
  match ts with
  | [] => exact hf.nil
  | [t] => rw [String.intercalate_singleton, List.flatMap_singleton]
  | t :: u :: ts =>
    rw [toList_intercalate_cons_cons, hf _ _ (h t List.mem_cons_self), hf _ _ (.plain hsep), hs,
      List.nil_append, List.flatMap_cons,
      hf.intercalate hsep hs fun v hv => h v (List.mem_cons_of_mem t hv)]

/-! ## Texts taken apart -/

/-- The pieces of a text that is read from the left. A quote without a partner may stand in a piece
only when no quote follows it. -/
inductive Cut (gap : Char → Bool) : List Char → List (List Char) → Prop
  | nil : Cut gap [] []
  | gap {c : Char} {cs : List Char} {ps : List (List Char)} (h : gap c = true)
      (hr : Cut gap cs ps) : Cut gap (c :: cs) ps
  | plain {p cs : List Char} {ps : List (List Char)} (h : Plain p) (hr : Cut gap cs ps) :
      Cut gap (p ++ cs) (p :: ps)
  | literal {body cs : List Char} {ps : List (List Char)} (h : Plain body) (hr : Cut gap cs ps) :
      Cut gap ('"' :: (body ++ '"' :: cs)) (('"' :: (body ++ ['"'])) :: ps)
  | opened {p cs : List Char} {ps : List (List Char)} (h : Plain (p ++ cs)) (hr : Cut gap cs ps) :
      Cut gap ('"' :: (p ++ cs)) (('"' :: p) :: ps)

/-- A piece that stands for itself: free of quotes or a whole literal. -/
inductive Whole : List Char → Prop
  | plain {p : List Char} (h : Plain p) : Whole p
  | literal {body : List Char} (h : Plain body) : Whole ('"' :: (body ++ ['"']))

theorem Whole.closed {p : List Char} (h : Whole p) : Closed p := by
  cases h with
  | plain h => exact .plain h
  | literal h => exact closed_literal h

section Cut

variable {gap : Char → Bool} {cs : List Char} {ps : List (List Char)}

theorem Cut.piece (h : Cut gap cs ps) : ∀ p ∈ ps, Whole p ∨ ∃ r, Plain r ∧ p = '"' :: r := by
  induction h with
  | nil => simp
  | gap _ _ ih => exact ih
  | plain hp _ ih => exact List.forall_mem_cons.2 ⟨.inl (.plain hp), ih⟩
  | literal hb _ ih => exact List.forall_mem_cons.2 ⟨.inl (.literal hb), ih⟩
  | opened hp _ ih => exact List.forall_mem_cons.2 ⟨.inr ⟨_, (plain_append.1 hp).1, rfl⟩, ih⟩

theorem Cut.whole (h : Cut gap cs ps) (hq : gap '"' = false) (hc : Closed cs) :
    ∀ p ∈ ps, Whole p := by
  induction h with
  | nil => simp
  | @gap c cs ps hg _ ih =>
    have hne : c ≠ '"' := by
      rintro rfl
      rw [hq] at hg
      cases hg
    exact ih (hc.of_plain_append (p := [c]) (plain_cons.2 ⟨hne, plain_nil⟩))
  | plain hp _ ih =>
    intro p hm
    rcases List.mem_cons.1 hm with rfl | hm
    · exact .plain hp
    · exact ih (hc.of_plain_append hp) p hm
  | literal hb _ ih =>
    intro p hm
    rcases List.mem_cons.1 hm with rfl | hm
    · exact .literal hb
    · exact ih (hc.of_literal_append hb) p hm
  | opened hp _ _ => exact absurd hc (not_closed_quote_plain hp)

/-- What adds up over closed texts, and ignores gaps, is read off the pieces. -/
theorem Cut.flatMap {α : Type} {f : List Char → List α} (h : Cut gap cs ps) (hc : Closed cs)
    (hf : Additive f) (hg : ∀ c, gap c = true → f [c] = []) (hq : gap '"' = false) :
    ps.flatMap f = f cs := by
  induction h with
  | nil => exact hf.nil.symm
  | @gap c cs ps hgap _ ih =>
    have hne : c ≠ '"' := by
      rintro rfl
      rw [hq] at hgap
      cases hgap
    have hp : Plain [c] := plain_cons.2 ⟨hne, plain_nil⟩
    rw [← List.singleton_append, hf [c] cs (.plain hp), hg c hgap, List.nil_append]
    exact ih (hc.of_plain_append (p := [c]) hp)
  | plain hp _ ih =>
    rw [List.flatMap_cons, hf _ _ (.plain hp), ih (hc.of_plain_append hp)]
  | @literal body cs ps hb _ ih =>
    have := hf ('"' :: (body ++ ['"'])) cs (closed_literal hb)
    rw [List.cons_append, List.append_assoc, List.singleton_append] at this
    rw [List.flatMap_cons, this, ih (hc.of_literal_append hb)]
  | opened hp _ _ => exact absurd hc (not_closed_quote_plain hp)

end Cut

end Courtesy.Text
