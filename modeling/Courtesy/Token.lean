import Courtesy.Token.Lexeme
import Courtesy.Token.Literal
import Courtesy.Text.Quoted

/-!
# Tokens

A token is a lexeme with a kind. A line of source is the list of its tokens, or is refused at the
first lexeme that belongs to no kind.
-/

namespace Courtesy

open Courtesy.Text

structure Token where
  text : String
  kind : Kind
  column : Nat
  deriving DecidableEq, Repr, Inhabited

/-- The kind of a text. The alphabets overlap, so the order decides: keywords, type names,
relational phrases, numbers, strings, identifiers. -/
def classify (text : String) : Kind :=
  match Vocabulary.keywords.lookup text with
  | some kind => kind
  | none =>
    if ValueType.isName text then .typeName
    else if Vocabulary.isRelational text then .relational
    else if Literal.isNumber text then .number
    else if Literal.isString text then .string
    else if Literal.isIdentifier text then .identifier
    else .invalid

/-- The texts of the lexemes of a line. -/
def tokenize (line : String) : List String := (Lexeme.scan line).map (·.text)

/-- The wording with which a lexeme without a kind is refused. -/
def Lexeme.refusal (l : Lexeme) : String :=
  s!"Unknown command: unrecognized token {quote l.text}"

namespace Token

/-- A lexeme with its kind; the lexeme itself when it belongs to none. -/
def ofLexeme (l : Lexeme) : Except Lexeme Token :=
  let kind := classify l.text
  if kind = .invalid then .error l else .ok ⟨l.text, kind, l.column⟩

/-- The tokens of a trimmed line, or the first lexeme that belongs to no kind. -/
def ofLine (line : String) : Except Lexeme (List Token) :=
  (Lexeme.scan (trim line)).mapM ofLexeme

/-- The texts of tokens. -/
def texts (ts : List Token) : List String := ts.map (·.text)

/-- The texts of tokens joined by single spaces. -/
def join (ts : List Token) : String := spaced (texts ts)

/-- The place of the first token of a kind. -/
def index? (kind : Kind) (ts : List Token) : Option Nat := ts.findIdx? (·.kind == kind)

end Token

end Courtesy
