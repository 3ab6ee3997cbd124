import Courtesy.Expression.Automaton

/-!
# The language of the acceptor

The acceptor of expressions keeps a mode and a count of open parentheses. What it accepts is a
context-free language: chains of atoms with operators between them, an optional sign in front of a
chain, and chains in parentheses as atoms again (`Formed`). Behind a string only `plus` goes on.

* `Formed.reading`: whatever is formed by the grammar is read, and leaves the mode in which the rest
  is read.
* `split`: whatever is read falls into a part that is formed by the grammar and the rest behind it.
* `accept_ok_iff`: the two together.
-/

namespace Courtesy.Expression

/-- The operators that stand between two atoms. -/
def Role.IsOperator (role : Role) : Prop :=
  role = .plus ∨ role = .minus ∨ role = .times ∨ role = .over

/-- The operators that can stand in front of a chain. -/
def Role.IsSign (role : Role) : Prop := role = .plus ∨ role = .minus

/-- The parts of an accepted sequence. What may follow an atom depends on whether it is a string. -/
inductive Part where
  | atom (isString : Bool)
  | rest (isString : Bool)
  | chain
  | whole

/-- The roles that form a part. -/
inductive Formed : Part → List Role → Prop
  | number : Formed (.atom false) [.number]
  | var : Formed (.atom false) [.var]
  | string : Formed (.atom true) [.string]
  | group {c : List Role} (hc : Formed .chain c) :
      Formed (.atom false) (.opening :: (c ++ [.closing]))
  | done {s : Bool} : Formed (.rest s) []
  | more {s t : Bool} {op : Role} {a r : List Role} (hop : op.IsOperator)
      (hs : s = true → op = .plus) (ha : Formed (.atom t) a) (hr : Formed (.rest t) r) :
      Formed (.rest s) (op :: (a ++ r))
  | plain {s : Bool} {a r : List Role} (ha : Formed (.atom s) a) (hr : Formed (.rest s) r) :
      Formed .chain (a ++ r)
  | signed {s : Bool} {sign : Role} {a r : List Role} (hsign : sign.IsSign)
      (ha : Formed (.atom s) a) (hr : Formed (.rest s) r) : Formed .chain (sign :: (a ++ r))
  | value {c : List Role} (hc : Formed .chain c) : Formed .whole c
  | truth {r : List Role} (hr : Formed (.rest false) r) : Formed .whole (.boolean :: r)

/-! ## Reading roles -/

/-- Whether roles are read to their end from a mode with `depth` parentheses open. -/
def reads : Mode → Nat → List Role → Bool
  | mode, depth, [] => depth == 0 && mode.isFinal
  | mode, depth, role :: roles =>
    match mode.next role with
    | none => false
    | some mode' =>
      match role with
      | .opening => reads mode' (depth + 1) roles
      | .closing => depth != 0 && reads mode' (depth - 1) roles
      | _ => reads mode' depth roles

/-- The texts of the items play no part in whether they are accepted. -/
theorem acceptFrom_ok_iff (mode : Mode) (depth : Nat) (items : List Item) :
    acceptFrom mode depth items = .ok () ↔ reads mode depth (items.map (·.role)) = true := by
  induction items generalizing mode depth with
  | nil =>
    rw [acceptFrom, List.map_nil, reads]
    cases depth with
    | zero => cases mode <;> simp [Mode.isFinal]
    | succ depth => simp
  | cons item items ih =>
    rw [acceptFrom, List.map_cons, reads]
    cases mode.next item.role with
    | none => simp
    | some mode' =>
      dsimp only
      cases item.role with
      | closing =>
        cases depth with
        | zero => simp
        | succ depth => simpa using ih mode' depth
      | opening => exact ih mode' (depth + 1)
      | _ => exact ih mode' depth

/-- The mode behind an atom. -/
def Mode.behind (isString : Bool) : Mode := if isString then .string else .closed

/-- The modes in which an atom may come next. -/
def Mode.WantsAtom (mode : Mode) : Prop := mode = .start ∨ mode = .operator ∨ mode = .opened

section

variable (depth : Nat) (roles : List Role)

theorem reads_number : reads .number depth roles = reads .closed depth roles := by
  cases roles <;> simp [reads, Mode.next, Mode.isFinal]

theorem reads_var : reads .var depth roles = reads .closed depth roles := by
  cases roles <;> simp [reads, Mode.next, Mode.isFinal]

theorem reads_closed_closing :
    reads .closed (depth + 1) (.closing :: roles) = reads .closed depth roles := by
  simp [reads, Mode.next, Mode.afterOperand]

end

/-- What stands behind a chain: nothing, or a closing parenthesis. -/
def Ends (roles : List Role) : Prop := roles = [] ∨ ∃ rest, roles = .closing :: rest

theorem reads_behind {roles : List Role} (h : Ends roles) (s : Bool) (depth : Nat) :
    reads (.behind s) depth roles = reads .closed depth roles := by
  rcases h with rfl | ⟨rest, rfl⟩ <;> cases s <;> rfl

/-- How the roles of a part are read. An atom leaves the mode behind it, and a chain can be read
where it ends. -/
def Reading : Part → List Role → Prop
  | .atom s, roles => ∀ mode : Mode, mode.WantsAtom → ∀ depth rest,
      reads mode depth (roles ++ rest) = reads (.behind s) depth rest
  | .rest s, roles => ∀ depth rest, Ends rest →
      reads (.behind s) depth (roles ++ rest) = reads .closed depth rest
  | .chain, roles => ∀ mode : Mode, mode = .start ∨ mode = .opened → ∀ depth rest, Ends rest →
      reads mode depth (roles ++ rest) = reads .closed depth rest
  | .whole, roles => reads .start 0 roles = true

theorem Formed.reading {part : Part} {roles : List Role} (h : Formed part roles) :
    Reading part roles := by
  induction h with
  | number =>
    intro mode hmode depth rest
    rcases hmode with rfl | rfl | rfl <;> exact reads_number depth rest
  | var =>
    intro mode hmode depth rest
    rcases hmode with rfl | rfl | rfl <;> exact reads_var depth rest
  | string =>
    intro mode hmode depth rest
    rcases hmode with rfl | rfl | rfl <;> rfl
  | @group c _ ih =>
    intro mode hmode depth rest
    have hopen : reads mode depth (.opening :: (c ++ (.closing :: rest))) =
        reads .opened (depth + 1) (c ++ (.closing :: rest)) := by
      rcases hmode with rfl | rfl | rfl <;> rfl
    rw [List.cons_append, List.append_assoc, List.singleton_append, hopen,
      ih .opened (.inr rfl) (depth + 1) _ (.inr ⟨rest, rfl⟩), reads_closed_closing]
    rfl
  | done => exact fun depth rest hrest => reads_behind hrest _ depth
  | @more s t op a r hop hs _ _ iha ihr =>
    intro depth rest hrest
    have hstep : reads (.behind s) depth (op :: (a ++ (r ++ rest))) =
        reads .operator depth (a ++ (r ++ rest)) := by
      cases s with
      | false => rcases hop with rfl | rfl | rfl | rfl <;> rfl
      | true => rw [hs rfl]; rfl
    rw [List.cons_append, List.append_assoc, hstep, iha .operator (.inr (.inl rfl)),
      ihr depth rest hrest]
  | plain _ _ iha ihr =>
    intro mode hmode depth rest hrest
    have hwants : mode.WantsAtom := hmode.imp id .inr
    rw [List.append_assoc, iha mode hwants, ihr depth rest hrest]
  | @signed s sign a r hsign _ _ iha ihr =>
    intro mode hmode depth rest hrest
    have hstep : reads mode depth (sign :: (a ++ (r ++ rest))) =
        reads .operator depth (a ++ (r ++ rest)) := by
      rcases hmode with rfl | rfl <;> rcases hsign with rfl | rfl <;> rfl
    rw [List.cons_append, List.append_assoc, hstep, iha .operator (.inr (.inl rfl)),
      ihr depth rest hrest]
  | @value c _ ih =>
    have hread := ih .start (.inl rfl) 0 [] (.inl rfl)
    rw [List.append_nil] at hread
    exact hread
  | @truth r _ ih =>
    have hread := ih 0 [] (.inl rfl)
    rw [List.append_nil] at hread
    exact (reads_number 0 r).trans hread

/-! ## Finding the parts -/

/-- What can come next where an atom is wanted. -/
inductive Leads (mode : Mode) (depth : Nat) : List Role → Prop
  | single {s : Bool} {role : Role} {rest : List Role} (hatom : Formed (.atom s) [role])
      (h : reads (.behind s) depth rest = true) : Leads mode depth (role :: rest)
  | opening {rest : List Role} (h : reads .opened (depth + 1) rest = true) :
      Leads mode depth (.opening :: rest)
  | sign {sign : Role} {rest : List Role} (hmode : mode ≠ .operator) (hsign : sign.IsSign)
      (h : reads .operator depth rest = true) : Leads mode depth (sign :: rest)
  | truth {rest : List Role} (hmode : mode = .start) (h : reads .closed depth rest = true) :
      Leads mode depth (.boolean :: rest)

theorem leads_of_reads {mode : Mode} (hmode : mode.WantsAtom) {depth : Nat} {roles : List Role}
    (h : reads mode depth roles = true) : Leads mode depth roles := by
  cases roles with
  | nil =>
    have hfinal : mode.isFinal = true := (Bool.and_eq_true_iff.1 h).2
    rcases hmode with rfl | rfl | rfl <;> cases hfinal
  | cons role rest =>
    cases role with
    | number =>
      have hread : reads .number depth rest = true := by
        rcases hmode with rfl | rfl | rfl <;> exact h
      rw [reads_number] at hread
      exact .single .number hread
    | var =>
      have hread : reads .var depth rest = true := by
        rcases hmode with rfl | rfl | rfl <;> exact h
      rw [reads_var] at hread
      exact .single .var hread
    | string => exact .single .string (by rcases hmode with rfl | rfl | rfl <;> exact h)
    | opening => exact .opening (by rcases hmode with rfl | rfl | rfl <;> exact h)
    | plus =>
      rcases hmode with rfl | rfl | rfl
      · exact .sign (by decide) (.inl rfl) h
      · cases h
      · exact .sign (by decide) (.inl rfl) h
    | minus =>
      rcases hmode with rfl | rfl | rfl
      · exact .sign (by decide) (.inr rfl) h
      · cases h
      · exact .sign (by decide) (.inr rfl) h
    | boolean =>
      rcases hmode with rfl | rfl | rfl
      · exact .truth rfl ((reads_number depth rest).symm.trans h)
      · cases h
      · cases h
    | _ => rcases hmode with rfl | rfl | rfl <;> cases h

/-- What is left to be read behind a chain with `depth` parentheses open. -/
inductive Closes : Nat → List Role → Prop
  | last : Closes 0 []
  | closing {depth : Nat} {rest : List Role} (h : reads .closed depth rest = true) :
      Closes (depth + 1) (.closing :: rest)

/-- What can come next behind an atom. -/
inductive Follows (s : Bool) (depth : Nat) : List Role → Prop
  | closes {roles : List Role} (h : Closes depth roles) : Follows s depth roles
  | operator {op : Role} {rest : List Role} (hop : op.IsOperator) (hs : s = true → op = .plus)
      (h : reads .operator depth rest = true) : Follows s depth (op :: rest)

theorem follows_of_reads {s : Bool} {depth : Nat} {roles : List Role}
    (h : reads (.behind s) depth roles = true) : Follows s depth roles := by
  cases roles with
  | nil =>
    have hdepth : depth = 0 := beq_iff_eq.1 (Bool.and_eq_true_iff.1 h).1
    rw [hdepth]
    exact .closes .last
  | cons role rest =>
    cases role with
    | closing =>
      have hread : (depth != 0 && reads .closed (depth - 1) rest) = true := by cases s <;> exact h
      obtain ⟨hdepth, hread⟩ := Bool.and_eq_true_iff.1 hread
      obtain ⟨d, rfl⟩ := Nat.exists_eq_add_one_of_ne_zero (bne_iff_ne.1 hdepth)
      exact .closes (.closing hread)
    | plus => exact .operator (.inl rfl) (fun _ => rfl) (by cases s <;> exact h)
    | minus =>
      cases s with
      | false => exact .operator (.inr (.inl rfl)) (by simp) h
      | true => cases h
    | times =>
      cases s with
      | false => exact .operator (.inr (.inr (.inl rfl))) (by simp) h
      | true => cases h
    | number | var | string | boolean | opening => cases s <;> cases h
    | _ =>
      cases s with
      | false => exact .operator (.inr (.inr (.inr rfl))) (by simp) h
      | true => cases h

/-- How roles fall into parts where they are read behind an atom, behind an operator and behind an
opening parenthesis. -/
structure Split (roles : List Role) : Prop where
  behind : ∀ s depth, reads (.behind s) depth roles = true →
    ∃ r rest, roles = r ++ rest ∧ Formed (.rest s) r ∧ Closes depth rest
  operand : ∀ depth, reads .operator depth roles = true →
    ∃ s a r rest, roles = a ++ (r ++ rest) ∧ Formed (.atom s) a ∧ Formed (.rest s) r ∧
      Closes depth rest
  chain : ∀ depth, reads .opened depth roles = true →
    ∃ c rest, roles = c ++ rest ∧ Formed .chain c ∧ Closes depth rest

section

variable {n depth : Nat} {roles : List Role}
  (hshort : ∀ shorter : List Role, shorter.length < n → Split shorter)

include hshort

theorem split_behind (hlen : roles.length ≤ n) {s : Bool} (h : Follows s depth roles) :
    ∃ r rest, roles = r ++ rest ∧ Formed (.rest s) r ∧ Closes depth rest := by
  cases h with
  | closes h => exact ⟨[], roles, rfl, .done, h⟩
  | @operator op rest hop hs h =>
    obtain ⟨t, a, r, rest, rfl, ha, hr, hrest⟩ := (hshort rest hlen).operand depth h
    refine ⟨op :: (a ++ r), rest, ?_, .more hop hs ha hr, hrest⟩
    rw [List.cons_append, List.append_assoc]

/-- An atom comes next, unless a sign or a truth value does. -/
theorem split_atom (hlen : roles.length ≤ n) {mode : Mode} (h : Leads mode depth roles) :
    (∃ s a r rest, roles = a ++ (r ++ rest) ∧ Formed (.atom s) a ∧ Formed (.rest s) r ∧
      Closes depth rest) ∨
    (mode ≠ .operator ∧ ∃ sign rest, roles = sign :: rest ∧ sign.IsSign ∧
      reads .operator depth rest = true) ∨
    (mode = .start ∧ ∃ rest, roles = .boolean :: rest ∧ reads .closed depth rest = true) := by
  cases h with
  | @single s role rest hatom h =>
    obtain ⟨r, rest, rfl, hr, hrest⟩ := (hshort rest hlen).behind s depth h
    exact .inl ⟨s, [role], r, rest, rfl, hatom, hr, hrest⟩
  | @opening rest h =>
    obtain ⟨c, rest, rfl, hc, hrest⟩ := (hshort rest hlen).chain (depth + 1) h
    cases hrest with
    | @closing _ rest hclosed =>
      have hlt : rest.length < n := by
        simp only [List.length_cons, List.length_append] at hlen
        omega
      obtain ⟨r, rest, rfl, hr, hrest⟩ := (hshort rest hlt).behind false depth hclosed
      exact .inl ⟨false, .opening :: (c ++ [.closing]), r, rest, by simp, .group hc, hr, hrest⟩
  | sign hmode hsign h => exact .inr (.inl ⟨hmode, _, _, rfl, hsign, h⟩)
  | truth hmode h => exact .inr (.inr ⟨hmode, _, rfl, h⟩)

end

/-- Everything that is read falls into parts. The induction is on the length, since a group ends
somewhere inside of what is read. -/
theorem split (roles : List Role) : Split roles := by
  induction hlen : roles.length using Nat.strongRecOn generalizing roles with
  | ind n ih =>
    have hshort : ∀ shorter : List Role, shorter.length < n → Split shorter :=
      fun shorter hlt => ih shorter.length hlt shorter rfl
    have hle : roles.length ≤ n := Nat.le_of_eq hlen
    refine ⟨?_, ?_, ?_⟩
    · intro s depth h
      exact split_behind hshort hle (follows_of_reads h)
    · intro depth h
      rcases split_atom hshort hle (leads_of_reads (.inr (.inl rfl)) h) with h | ⟨hmode, -⟩ |
        ⟨hmode, -⟩
      · exact h
      · exact absurd rfl hmode
      · cases hmode
    · intro depth h
      rcases split_atom hshort hle (leads_of_reads (.inr (.inr rfl)) h) with
        ⟨s, a, r, rest, rfl, ha, hr, hrest⟩ | ⟨-, sign, rest, rfl, hsign, hread⟩ | ⟨hmode, -⟩
      · exact ⟨a ++ r, rest, (List.append_assoc a r rest).symm, .plain ha hr, hrest⟩
      · obtain ⟨s, a, r, rest, rfl, ha, hr, hrest⟩ := (hshort rest hle).operand depth hread
        refine ⟨sign :: (a ++ r), rest, ?_, .signed hsign ha hr, hrest⟩
        rw [List.cons_append, List.append_assoc]
      · cases hmode

theorem Closes.eq_nil {roles : List Role} (h : Closes 0 roles) : roles = [] := by
  cases h
  rfl

/-- What is read from the start on is formed as a whole. -/
theorem formed_of_reads {roles : List Role} (h : reads .start 0 roles = true) :
    Formed .whole roles := by
  rcases split_atom (fun shorter _ => split shorter) (Nat.le_refl _) (leads_of_reads (.inl rfl) h)
    with ⟨s, a, r, rest, rfl, ha, hr, hrest⟩ | ⟨-, sign, rest, rfl, hsign, hread⟩ |
      ⟨-, rest, rfl, hread⟩
  · rw [hrest.eq_nil, List.append_nil]
    exact .value (.plain ha hr)
  · obtain ⟨s, a, r, rest, rfl, ha, hr, hrest⟩ := (split rest).operand 0 hread
    rw [hrest.eq_nil, List.append_nil]
    exact .value (.signed hsign ha hr)
  · obtain ⟨r, rest, rfl, hr, hrest⟩ := (split rest).behind false 0 hread
    rw [hrest.eq_nil, List.append_nil]
    exact .truth hr

/-- The acceptor accepts what the grammar forms. -/
theorem accept_ok_iff (items : List Item) :
    accept items = .ok () ↔ Formed .whole (items.map (·.role)) := by
  rw [accept, acceptFrom_ok_iff]
  exact ⟨formed_of_reads, fun h => h.reading⟩

end Courtesy.Expression
