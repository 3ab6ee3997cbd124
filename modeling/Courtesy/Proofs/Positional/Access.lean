import Courtesy.Scope

/-!
# Access by position

Lists read by number, as an implementation on arrays reads them: the entry at a position and the
part between two positions are there only if the positions are. Positions are integers, for a
position that has been computed may be negative. A computation of type `Look` answers `none` as
soon as it asks for a position that does not exist; else it ends with a result or a fault.

A stack is a list whose top is its last entry. The frames of a scope are read in this way, and
every position that is asked for in them exists.
-/

namespace Courtesy.Positional

variable {α β ε φ : Type}

/-- The entry at a position. -/
def at? (l : List α) (i : Int) : Option α := if i < 0 then none else l[i.toNat]?

/-- The entries from the position `a` on that stand in front of the position `b`. -/
def slice? (l : List α) (a b : Int) : Option (List α) :=
  if 0 ≤ a ∧ a ≤ b ∧ b ≤ l.length then some ((l.take b.toNat).drop a.toNat) else none

/-- The entries from a position on. -/
def from? (l : List α) (a : Int) : Option (List α) := slice? l a l.length

/-- The entries in front of a position. -/
def upTo? (l : List α) (b : Int) : Option (List α) := slice? l 0 b

/-- The position of the first entry with a property, `-1` if there is none. -/
def indexOf (p : α → Bool) (l : List α) : Int :=
  match l.findIdx? p with
  | some i => i
  | none => -1

@[simp] theorem at?_natCast (l : List α) (n : Nat) : at? l (n : Int) = l[n]? := by
  have hn : ¬ (n : Int) < 0 := by omega
  rw [at?, if_neg hn, Int.toNat_natCast]

@[simp] theorem at?_ofNat (l : List α) (n : Nat) :
    at? l (no_index (OfNat.ofNat n)) = l[(OfNat.ofNat n : Nat)]? :=
  at?_natCast l n

theorem at?_eq_getElem {l : List α} {i : Nat} (h : i < l.length) : at? l (i : Int) = some l[i] := by
  rw [at?_natCast, List.getElem?_eq_getElem h]

theorem at?_succ {l : List α} {i : Nat} (h : i + 1 < l.length) :
    at? l ((i : Int) + 1) = some l[i + 1] :=
  at?_eq_getElem h

theorem at?_last (l : List α) (a : α) : at? (l ++ [a]) ((l ++ [a]).length - 1) = some a := by
  have hlen : (((l ++ [a]).length : Nat) : Int) - 1 = (l.length : Nat) := by simp
  rw [hlen, at?_natCast, List.getElem?_concat_length]

theorem slice?_natCast {l : List α} {a b : Nat} (hab : a ≤ b) (hb : b ≤ l.length) :
    slice? l (a : Int) (b : Int) = some ((l.take b).drop a) := by
  have h : (0 : Int) ≤ a ∧ (a : Int) ≤ b ∧ (b : Int) ≤ l.length := by omega
  rw [slice?, if_pos h, Int.toNat_natCast, Int.toNat_natCast]

theorem slice?_middle (front part back : List α) :
    slice? (front ++ (part ++ back)) front.length (front.length + part.length) = some part := by
  have hsum : (front.length : Int) + part.length = ((front.length + part.length : Nat) : Int) := by
    omega
  have hle : front.length + part.length ≤ (front ++ (part ++ back)).length := by
    simp only [List.length_append]
    omega
  rw [hsum, slice?_natCast (by omega) hle, List.take_length_add_append, List.drop_left,
    List.take_left]

theorem from?_natCast {l : List α} {a : Nat} (ha : a ≤ l.length) :
    from? l (a : Int) = some (l.drop a) := by
  rw [from?, slice?_natCast ha (Nat.le_refl _), List.take_length]

theorem from?_succ {l : List α} {i : Nat} (h : i < l.length) :
    from? l ((i : Int) + 1) = some (l.drop (i + 1)) :=
  from?_natCast h

theorem upTo?_natCast {l : List α} {b : Nat} (hb : b ≤ l.length) :
    upTo? l (b : Int) = some (l.take b) :=
  slice?_natCast (Nat.zero_le b) hb

theorem upTo?_last (l : List α) (a : α) : upTo? (l ++ [a]) ((l ++ [a]).length - 1) = some l := by
  have hlen : (((l ++ [a]).length : Nat) : Int) - 1 = (l.length : Nat) := by simp
  rw [hlen, upTo?_natCast (by simp), List.take_left']
  rfl

/-! ## Computations that look up positions -/

/-- A computation that answers `none` when it asks for a position that does not exist, and else
ends with a result or a fault. -/
abbrev Look (ε α : Type) := ExceptT ε Option α

/-- A computation that asks for no position. -/
def told (x : Except ε α) : Look ε α := ExceptT.mk (some x)

/-- A look at a position. -/
def look (x : Option α) : Look ε α := ExceptT.lift x

/-- A computation with its faults put into a context. -/
def within (f : ε → φ) (x : Look ε α) : Look φ α := ExceptT.adapt f x

@[simp] theorem look_some (a : α) : (look (some a) : Look ε α) = pure a := rfl

@[simp] theorem told_ok (a : α) : told (.ok a : Except ε α) = pure a := rfl

@[simp] theorem told_pure (a : α) : told (pure a : Except ε α) = pure a := rfl

@[simp] theorem told_error (e : ε) : told (.error e : Except ε α) = throw e := rfl

@[simp] theorem told_bind (x : Except ε α) (f : α → Except ε β) :
    told (x >>= f) = told x >>= fun a => told (f a) := by
  cases x <;> rfl

@[simp] theorem told_map (f : α → β) (x : Except ε α) : told (f <$> x) = f <$> told x := by
  cases x <;> rfl

@[simp] theorem told_ite (c : Prop) [Decidable c] (x y : Except ε α) :
    told (if c then x else y) = if c then told x else told y := by
  split <;> rfl

@[simp] theorem run_told (x : Except ε α) : (told x).run = some x := rfl

@[simp] theorem throw_bind (e : ε) (f : α → Look ε β) : (throw e : Look ε α) >>= f = throw e := rfl

@[simp] theorem within_pure (f : ε → φ) (a : α) : within f (pure a) = pure a := rfl

@[simp] theorem within_throw (f : ε → φ) (e : ε) :
    within f (throw e : Look ε α) = throw (f e) := rfl

/-! ## Stacks -/

/-- The lowest `n` entries of a stack, from the top down. -/
def downFrom? (stack : List α) : Nat → Option (List α)
  | 0 => some []
  | n + 1 => do
    let entry ← at? stack n
    let below ← downFrom? stack n
    return entry :: below

/-- The entries of a stack from its top down. -/
def downward? (stack : List α) : Option (List α) := downFrom? stack stack.length

/-- The frames of a scope, the innermost one on top. -/
def stack (s : Scope) : List Variables := s.frames.reverse

/-- The type of a name, the frames being read from the top down. -/
def lookup? (s : Scope) (name : String) : Option (Option ValueType) := do
  let frames ← downward? (stack s)
  return frames.findSome? (List.lookup name)

def isDeclared (s : Scope) (name : String) : Option Bool := do
  let type? ← lookup? s name
  return type?.isSome

/-- The variables that can be named, the frames being read from the top down. -/
def visible (s : Scope) : Option Variables := do
  let frames ← downward? (stack s)
  return Scope.visibleIn frames

/-- Binds a name in the frame on top, which is opened first when there is none. -/
def declare (name : String) (type : ValueType) (s : Scope) : Option Scope := do
  let frames := if (stack s).length = 0 then [[]] else stack s
  let top ← at? frames (frames.length - 1)
  let frames := frames.set (frames.length - 1) (Variables.bind name type top)
  return { s with frames := frames.reverse }

/-- Takes the frame on top away, if there is one. -/
def pop (s : Scope) : Option Scope :=
  if 0 < (stack s).length then do
    let frames ← upTo? (stack s) ((stack s).length - 1)
    return { s with frames := frames.reverse }
  else some s

theorem downFrom?_eq {stack : List α} {n : Nat} (h : n ≤ stack.length) :
    downFrom? stack n = some (stack.take n).reverse := by
  induction n with
  | zero => rfl
  | succ n ih =>
    have hn : n < stack.length := by omega
    rw [downFrom?, at?_eq_getElem hn, ih (by omega),
      List.take_succ_eq_append_getElem hn, List.reverse_append]
    rfl

theorem downward?_stack (s : Scope) : downward? (stack s) = some s.frames := by
  rw [downward?, downFrom?_eq (Nat.le_refl _), List.take_length, stack, List.reverse_reverse]

@[simp] theorem lookup?_eq (s : Scope) (name : String) :
    lookup? s name = some (s.lookup? name) := by
  rw [lookup?, downward?_stack]
  rfl

@[simp] theorem isDeclared_eq (s : Scope) (name : String) :
    isDeclared s name = some (s.isDeclared name) := by
  rw [isDeclared, lookup?_eq]
  rfl

@[simp] theorem visible_eq (s : Scope) : visible s = some s.visible := by
  rw [visible, downward?_stack]
  rfl

@[simp] theorem declare_eq (name : String) (type : ValueType) (s : Scope) :
    declare name type s = some (s.declare name type) := by
  unfold declare Scope.declare stack
  cases s.frames with
  | nil => rfl
  | cons frame outer =>
    rw [List.reverse_cons, if_neg (by simp)]
    dsimp only
    rw [at?_last]
    simp

@[simp] theorem pop_eq (s : Scope) : pop s = some s.pop := by
  obtain ⟨frames, functions⟩ := s
  cases frames with
  | nil => rfl
  | cons frame outer =>
    unfold pop stack
    rw [List.reverse_cons, if_pos (by simp), upTo?_last]
    simp [Scope.pop]

end Courtesy.Positional
