import Courtesy.Yaml.Block
import Courtesy.Yaml.Name
import Courtesy.Yaml.Plain

/-!
# Layout

Indentation is turned into tokens. A block collection starts where something is indented further
than its surroundings and ends where something is indented less. Whether something is a key is
known only when a colon follows it on the same line; its tokens are then put in front of it.
-/

namespace Courtesy.Yaml

/-- Something that is a key if a colon follows. One that stands where only a key can stand is
needed. -/
structure KeyStart where
  needed : Bool
  position : Nat
  mark : Mark
  deriving DecidableEq, Repr, Inhabited

namespace KeyStart

/-- How far behind the start of a key, on the same line, its colon may stand. -/
def reach : Nat := 1024

/-- Whether a colon at `m` makes a key. -/
def reaches (k : KeyStart) (m : Mark) : Bool :=
  m.line ≤ k.mark.line && m.column ≤ k.mark.column + reach

end KeyStart

structure Layout where
  cursor : Cursor
  tokens : List Token := []
  /-- The indentation of the innermost block collection, -1 outside of all. -/
  indent : Int := -1
  outer : List Int := []
  /-- Whether a key may start here. -/
  keyAllowed : Bool := true
  /-- The start of a possible key, for the block and for each open flow collection, the innermost
  first. -/
  keys : List (Option KeyStart) := [none]
  ended : Bool := false
  deriving Repr, Inhabited

namespace Layout

/-- Whether a flow collection is open. -/
def inFlow (l : Layout) : Bool := l.keys.length > 1

def push (l : Layout) (t : Token) : Layout := { l with tokens := l.tokens ++ [t] }

def insertAt (l : Layout) (position : Nat) (t : Token) : Layout :=
  { l with tokens := l.tokens.take position ++ t :: l.tokens.drop position }

def moveTo (l : Layout) (c : Cursor) : Layout := { l with cursor := c }

def allow (l : Layout) (b : Bool) : Layout := { l with keyAllowed := b }

/-- The possible key of the innermost collection. -/
def key? (l : Layout) : Option KeyStart := l.keys.head?.join

def setKey (l : Layout) (k : Option KeyStart) : Layout := { l with keys := k :: l.keys.drop 1 }

/-- Gives up the possible key; a needed one must not be given up. -/
def dropKey (l : Layout) : Option Layout :=
  if l.key?.any (·.needed) then none else some (l.setKey none)

/-- Notes that what starts here may be a key. -/
def startKey (l : Layout) : Option Layout :=
  if l.keyAllowed then do
    let needed := !l.inFlow && l.indent == (l.cursor.column : Int)
    return (← l.dropKey).setKey (some ⟨needed, l.tokens.length, l.cursor.mark⟩)
  else some l

/-- Ends the block collections that are indented further than `column`. -/
def unroll (column : Int) : List Int → Layout → Layout
  | [], l => l
  | i :: rest, l =>
    if l.indent > column then
      unroll column rest { l.push .blockEnd with indent := i, outer := rest }
    else l

/-- Ends block collections, unless a flow collection is open. -/
def endBlocks (l : Layout) (column : Int) : Layout :=
  if l.inFlow then l else unroll column l.outer l

/-- Starts a block collection at a column if it is indented further than its surroundings; its token
is put at a position. -/
def startBlock (l : Layout) (column : Nat) (position : Nat) (t : Token) : Layout :=
  if !l.inFlow && l.indent < (column : Int) then
    { l.insertAt position t with indent := column, outer := l.indent :: l.outer }
  else l

/-- Skips blanks, comments and line breaks. A tab is skipped only where no key may start. The first
argument bounds the number of lines. -/
def skipGap : Nat → Layout → Layout
  | 0, l => l
  | fuel + 1, l =>
    let c := l.cursor
    let c := if c.column == 0 && c.next (·.toNat == 0xfeff) then c.advance 1 else c
    let tabs := l.inFlow || !l.keyAllowed
    let c := c.skipWhile fun x => x == ' ' || (tabs && x == '\t')
    let c := if c.starts '#' then c.skipWhile (!isBreak ·) else c
    if c.next isBreak then
      let l := l.moveTo c.newline.2
      skipGap fuel (if l.inFlow then l else l.allow true)
    else l.moveTo c

/-! ## Tokens -/

def streamEnd (l : Layout) : Option Layout := do
  let l ← (l.endBlocks (-1)).dropKey
  return { (l.push .streamEnd) with ended := true, keyAllowed := false }

def directive (l : Layout) : Option Layout := do
  let l ← (l.endBlocks (-1)).dropKey
  let (t, c) ← Name.directive (l.cursor.advance 1)
  return ((l.push t).moveTo c).allow false

def marker (l : Layout) (t : Token) : Option Layout := do
  let l ← (l.endBlocks (-1)).dropKey
  return ((l.push t).moveTo (l.cursor.advance 3)).allow false

def flowStart (l : Layout) (t : Token) : Option Layout := do
  let l ← l.startKey
  let l := { l with keys := none :: l.keys }
  return ((l.push t).moveTo (l.cursor.advance 1)).allow true

def flowEnd (l : Layout) (t : Token) : Option Layout := do
  let l ← l.dropKey
  let l := if l.inFlow then { l with keys := l.keys.drop 1 } else l
  return ((l.push t).moveTo (l.cursor.advance 1)).allow false

def flowEntry (l : Layout) : Option Layout := do
  let l ← l.dropKey
  return ((l.push .flowEntry).moveTo (l.cursor.advance 1)).allow true

def blockEntry (l : Layout) : Option Layout := do
  if !l.inFlow && !l.keyAllowed then none
  else
    let l ← (l.startBlock l.cursor.column l.tokens.length .blockSequence).dropKey
    return ((l.push .blockEntry).moveTo (l.cursor.advance 1)).allow true

def explicitKey (l : Layout) : Option Layout := do
  if !l.inFlow && !l.keyAllowed then none
  else
    let l ← (l.startBlock l.cursor.column l.tokens.length .blockMapping).dropKey
    return ((l.push .key).moveTo (l.cursor.advance 1)).allow (!l.inFlow)

/-- A colon. With a possible key on its line it makes that a key; otherwise it belongs to an
explicit key. -/
def value (l : Layout) : Option Layout := do
  let reached := l.key?.filter (·.reaches l.cursor.mark)
  let l ← match reached with
    | some k =>
      let l := (l.insertAt k.position .key).startBlock k.mark.column k.position .blockMapping
      pure ((l.setKey none).allow false)
    | none =>
      if l.key?.any (·.needed) then none
      else
        let l := l.setKey none
        if l.inFlow then pure (l.allow false)
        else if !l.keyAllowed then none
        else pure ((l.startBlock l.cursor.column l.tokens.length .blockMapping).allow true)
  return (l.push .value).moveTo (l.cursor.advance 1)

def anchor (l : Layout) (make : String → Token) : Option Layout := do
  let l ← l.startKey
  let (name, c) ← Name.anchor (l.cursor.advance 1)
  return ((l.push (make name)).moveTo c).allow false

def tag (l : Layout) : Option Layout := do
  let l ← l.startKey
  let ((handle, suffix), c) ← Name.tag l.cursor
  return ((l.push (.tag handle suffix)).moveTo c).allow false

def blockScalar (l : Layout) (literal : Bool) : Option Layout := do
  let l ← l.dropKey
  let (text, c) ← Block.read literal l.indent (l.cursor.advance 1)
  return ((l.push (.scalar (String.ofList text) false)).moveTo c).allow true

def quotedScalar (l : Layout) (single : Bool) : Option Layout := do
  let l ← l.startKey
  let (text, c) ← Quoted.read single (l.cursor.advance 1)
  return ((l.push (.scalar (String.ofList text) false)).moveTo c).allow false

def plainScalar (l : Layout) : Option Layout := do
  let l ← l.startKey
  let r ← Plain.read l.inFlow (l.indent + 1).toNat l.cursor
  return ((l.push (.scalar (String.ofList r.text) true)).moveTo r.cursor).allow r.broken

/-- The characters with which no plain scalar starts. -/
def isIndicator (c : Char) : Bool :=
  "-?:,[]\x7b\x7d#&*!|>'\"%@\x60".toList.contains c

/-- Whether a plain scalar starts here: with a character that is no indicator, or with one of `-`,
`?` and `:` that nothing makes an indicator. -/
def startsPlain (l : Layout) : Bool :=
  match l.cursor.rest with
  | [] => false
  | x :: rest =>
    !(isGap x || isIndicator x)
      || (x == '-' && !rest.head?.any isBlank)
      || (!l.inFlow && (x == '?' || x == ':') && rest.head?.any (!isGap ·))

/-- Reads the next token. -/
def step (l : Layout) : Option Layout :=
  let l := skipGap (l.cursor.rest.length + 1) l
  let c := l.cursor
  let l := l.endBlocks c.column
  let gapFollows := c.nextOrEnd isGap 1
  match c.peek? with
  | none => l.streamEnd
  | some x =>
    if c.column == 0 && x == '%' then l.directive
    else if c.atMarker '-' then l.marker .documentStart
    else if c.atMarker '.' then l.marker .documentEnd
    else if x == '[' then l.flowStart .flowSequence
    else if x == '\x7b' then l.flowStart .flowMapping
    else if x == ']' then l.flowEnd .flowSequenceEnd
    else if x == '\x7d' then l.flowEnd .flowMappingEnd
    else if x == ',' then l.flowEntry
    else if x == '-' && gapFollows then l.blockEntry
    else if x == '?' && (l.inFlow || gapFollows) then l.explicitKey
    else if x == ':' && (l.inFlow || gapFollows) then l.value
    else if x == '*' then l.anchor .alias
    else if x == '&' then l.anchor .anchor
    else if x == '!' then l.tag
    else if x == '|' && !l.inFlow then l.blockScalar true
    else if x == '>' && !l.inFlow then l.blockScalar false
    else if x == '\x27' then l.quotedScalar true
    else if x == '"' then l.quotedScalar false
    else if l.startsPlain then l.plainScalar
    else none

/-- The tokens that can be relied on when the text goes wrong behind them: those in front of every
start of a key that is still undecided. -/
def settledTokens (l : Layout) : List Token :=
  let undecided := l.keys.filterMap fun k =>
    k.bind fun k => if k.needed || k.reaches l.cursor.mark then some k.position else none
  l.tokens.take (undecided.foldl min l.tokens.length)

/-- Whether nothing that has been read may still turn out to be a key. -/
def isSettled (l : Layout) : Bool := l.keys.all Option.isNone

/-- Reads tokens to the end of the text, or as far as they can be relied on. Where everything is
settled the tokens are handed out. The first argument bounds their number. -/
def run : Nat → Layout → List Token
  | 0, l => l.tokens
  | fuel + 1, l =>
    if l.ended then l.tokens
    else if l.isSettled then l.tokens ++ (step { l with tokens := [] }).elim [] (run fuel)
    else l.step.elim l.settledTokens (run fuel)

end Layout

/-- The tokens of a document. The list ends in the token for the end of the text only if all of it
could be read. -/
def Token.scan (text : String) : List Token :=
  let chars := match text.toList with
    | c :: cs => if c.toNat == 0xfeff then cs else c :: cs
    | [] => []
  if chars.all isAllowed then Layout.run (2 * chars.length + 4) { cursor := ⟨chars, {}⟩ } else []

end Courtesy.Yaml
