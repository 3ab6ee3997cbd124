/-!
# Value types

The declared types of a program and the primitive types they are emitted as. `invalid` stands for
a name that declares nothing; it is compatible with no type, itself included.
-/

namespace Courtesy

inductive ValueType where
  | invalid
  | integer
  | decimal
  | boolean
  | text
  | void
  deriving DecidableEq, Repr, Inhabited

namespace ValueType

/-- The word that declares the type. -/
def name : ValueType → String
  | invalid => "invalid"
  | integer => "integer"
  | decimal => "decimal"
  | boolean => "boolean"
  | text => "text"
  | void => "void"

/-- The primitive type that the type is emitted as. -/
def target : ValueType → String
  | invalid => ""
  | integer => "int"
  | decimal => "double"
  | boolean => "bool"
  | text => "string"
  | void => "void"

/-- The types that have a declaring word. -/
def declared : List ValueType := [integer, decimal, boolean, text, void]

/-- The type that a word declares. -/
def ofName? (s : String) : Option ValueType := declared.find? (·.name == s)

/-- Whether a word declares a type. -/
def isName (s : String) : Bool := (ofName? s).isSome

/-- Integer and decimal are the numeric types. -/
def isNumeric : ValueType → Bool
  | integer | decimal => true
  | _ => false

/-- Whether a value of type `source` may be used where `expected` is wanted. The numeric types
stand in for each other; a decimal narrows to an integer by truncation. -/
def compatible (source expected : ValueType) : Bool :=
  if source = expected then source ≠ invalid else source.isNumeric && expected.isNumeric

@[simp]
theorem ofName?_name {t : ValueType} (h : t ≠ invalid) : ofName? t.name = some t := by
  cases t <;> first | exact absurd rfl h | decide

theorem compatible_self {t : ValueType} : t.compatible t = true ↔ t ≠ invalid := by
  simp [compatible]

end ValueType

/-! ## Numbered types

A type also has a number. A number past the named types names nothing, yet is compatible with
itself, since only the number of `invalid` is excluded. -/

/-- The number of a value type; any integer may stand here. -/
structure TypeCode where
  code : Int
  deriving DecidableEq, Repr

namespace TypeCode

/-- The numbers of the types, in order from zero. -/
def ofType : ValueType → TypeCode
  | .invalid => ⟨0⟩
  | .integer => ⟨1⟩
  | .decimal => ⟨2⟩
  | .boolean => ⟨3⟩
  | .text => ⟨4⟩
  | .void => ⟨5⟩

/-- The type with this number; `invalid` when there is none. -/
def toType (n : TypeCode) : ValueType :=
  (ValueType.declared.find? (ofType · == n)).getD .invalid

/-- Compatibility of numbered types. -/
def compatible (source expected : TypeCode) : Bool :=
  if source = expected then source ≠ ofType .invalid
  else source.toType.isNumeric && expected.toType.isNumeric

theorem toType_ofType (t : ValueType) : (ofType t).toType = t := by cases t <;> decide

theorem compatible_ofType (s t : ValueType) :
    (ofType s).compatible (ofType t) = s.compatible t := by
  cases s <;> cases t <;> decide

end TypeCode

end Courtesy
