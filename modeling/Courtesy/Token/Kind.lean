/-!
# Token kinds

Every token of a line belongs to one kind. Kinds are numbered from zero in the order of their
declaration.
-/

namespace Courtesy

inductive Kind where
  | invalid
  | create
  | print
  | check
  | loop
  | define
  | call
  | giveBack
  | fromWord
  | toWord
  | whileWord
  | identifier
  | typeName
  | number
  | string
  | boolean
  | equals
  | openBrace
  | closeBrace
  | openParen
  | closeParen
  | comma
  | relational
  deriving DecidableEq, Repr, Inhabited

namespace Kind

/-- All kinds in the order of their numbers. -/
def all : List Kind :=
  [invalid, create, print, check, loop, define, call, giveBack, fromWord, toWord, whileWord,
    identifier, typeName, number, string, boolean, equals, openBrace, closeBrace, openParen,
    closeParen, comma, relational]

/-- The name of a kind as it is shown to a reader. -/
def name : Kind → String
  | invalid => "invalid"
  | create => "please create"
  | print => "thank you for printing"
  | check => "thank you for checking if"
  | loop => "thank you for looping"
  | define => "please define function"
  | call => "please call"
  | giveBack => "thank you for returning"
  | fromWord => "from"
  | toWord => "to"
  | whileWord => "while"
  | identifier => "identifier"
  | typeName => "type"
  | number => "number"
  | string => "string"
  | boolean => "boolean"
  | equals => "equals"
  | openBrace => "'\x7b'"
  | closeBrace => "'\x7d'"
  | openParen => "'('"
  | closeParen => "')'"
  | comma => "','"
  | relational => "relational operator"

/-- The kind with a given number. -/
def ofNumber? (n : Int) : Option Kind := if n < 0 then none else all[n.toNat]?

/-- The name of the kind with a given number; a number without a kind is `unknown`. -/
def nameOfNumber (n : Int) : String := ((ofNumber? n).map name).getD "unknown"

/-- The kind with a given name. -/
def ofName? (s : String) : Option Kind := all.find? (·.name == s)

theorem mem_all (k : Kind) : k ∈ all := by cases k <;> decide

theorem ofName?_name (k : Kind) : ofName? k.name = some k := by cases k <;> decide +kernel

end Kind

end Courtesy
