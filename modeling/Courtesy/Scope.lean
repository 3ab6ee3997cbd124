import Courtesy.ValueType

/-!
# Scopes

A scope holds the frames of the open blocks, the innermost first, and the table of the functions
that have been declared. A frame and the table each have at most one entry for a name. Looking a
name up and listing what is visible agree: see `lookup_visible`.
-/

namespace Courtesy

/-- Variables with their types. The first entry for a name counts. -/
abbrev Variables := List (String × ValueType)

/-- A named and typed parameter of a function. -/
structure Param where
  name : String
  type : ValueType
  deriving DecidableEq, Repr

/-- What is known of a function from its header. -/
structure Signature where
  name : String
  result : ValueType
  params : List Param
  deriving DecidableEq, Repr

/-- Binds a name in a frame, in place of any binding that it had there. -/
def Variables.bind (name : String) (type : ValueType) (frame : Variables) : Variables :=
  (name, type) :: frame.filter (·.1 != name)

structure Scope where
  frames : List Variables := []
  functions : List Signature := []
  deriving DecidableEq, Repr, Inhabited

namespace Scope

/-- Opens a frame. -/
def push (s : Scope) : Scope := { s with frames := [] :: s.frames }

/-- Closes the innermost frame, if there is one. -/
def pop (s : Scope) : Scope := { s with frames := s.frames.tail }

/-- The number of open frames. -/
def depth (s : Scope) : Nat := s.frames.length

/-- Drops all frames and opens the frame of a function: a function sees neither the variables
outside all functions nor those of another function. -/
def enterFunction (s : Scope) : Scope := { s with frames := [[]] }

/-- Binds a name in the innermost frame, which is opened first when there is none. -/
def declare (name : String) (type : ValueType) (s : Scope) : Scope :=
  match s.frames with
  | [] => { s with frames := [[(name, type)]] }
  | frame :: outer => { s with frames := frame.bind name type :: outer }

/-- Binds the parameters in order. -/
def declareAll (params : List Param) (s : Scope) : Scope :=
  params.foldl (fun s p => s.declare p.name p.type) s

/-- The type of a name, from the innermost frame that binds it. -/
def lookup? (s : Scope) (name : String) : Option ValueType :=
  s.frames.findSome? (List.lookup name)

/-- Whether some frame binds the name. -/
def isDeclared (s : Scope) (name : String) : Bool := (s.lookup? name).isSome

/-- The variables of frames that no frame further inside hides. -/
def visibleIn : List Variables → Variables
  | [] => []
  | frame :: outer => frame ++ (visibleIn outer).filter fun v => (frame.lookup v.1).isNone

/-- All variables that can be named, each with the type of its innermost binding. -/
def visible (s : Scope) : Variables := visibleIn s.frames

/-- Enters a function into the table, in place of any entry of its name. -/
def declareFunction (f : Signature) (s : Scope) : Scope :=
  { s with functions := f :: s.functions.filter (·.name != f.name) }

/-- The signature of a declared function. -/
def function? (s : Scope) (name : String) : Option Signature :=
  s.functions.find? (·.name == name)

/-- Whether a function of this name is declared. -/
def isFunction (s : Scope) (name : String) : Bool := (s.function? name).isSome

theorem lookup_filter_isNone (name : String) (frame vs : Variables) :
    (vs.filter fun v => (frame.lookup v.1).isNone).lookup name
      = if (frame.lookup name).isNone then vs.lookup name else none := by
  induction vs with
  | nil => simp
  | cons v vs ih =>
    obtain ⟨n, t⟩ := v
    rw [List.filter_cons, List.lookup_cons]
    by_cases hn : name = n
    · subst hn
      cases hf : frame.lookup name with
      | none => simp
      | some _ => rw [hf] at ih; simpa [hf] using ih
    · have hb : (name == n) = false := by simpa using hn
      cases hf : frame.lookup n <;> simp [hb, ih, List.lookup_cons]

theorem lookup_visibleIn (name : String) (frames : List Variables) :
    (visibleIn frames).lookup name = frames.findSome? (List.lookup name) := by
  induction frames with
  | nil => rfl
  | cons frame outer ih =>
    rw [visibleIn, List.lookup_append, lookup_filter_isNone, ih, List.findSome?_cons]
    cases frame.lookup name <;> simp

/-- What is visible under a name is what looking the name up finds. -/
theorem lookup_visible (s : Scope) (name : String) : s.visible.lookup name = s.lookup? name :=
  lookup_visibleIn name s.frames

@[simp] theorem functions_push (s : Scope) : s.push.functions = s.functions := rfl

@[simp] theorem functions_pop (s : Scope) : s.pop.functions = s.functions := rfl

@[simp] theorem functions_declare (name : String) (type : ValueType) (s : Scope) :
    (s.declare name type).functions = s.functions := by
  unfold declare
  split <;> rfl

@[simp] theorem functions_declareAll (params : List Param) (s : Scope) :
    (s.declareAll params).functions = s.functions := by
  induction params generalizing s with
  | nil => rfl
  | cons p ps ih => exact (ih _).trans (functions_declare p.name p.type s)

theorem function?_declareFunction (f : Signature) (s : Scope) (name : String) :
    (s.declareFunction f).function? name = if f.name = name then some f else s.function? name := by
  unfold function? declareFunction
  by_cases h : f.name = name
  · simp [h]
  · have hb : (f.name == name) = false := by simpa using h
    rw [if_neg h, List.find?_cons, hb, List.find?_filter]
    refine congrArg (List.find? · s.functions) (funext fun g => ?_)
    by_cases hg : g.name = name
    · simp [hg, Ne.symm h]
    · simp [hg]

end Scope

end Courtesy
