import Courtesy.Yaml.Layout

/-!
# Documents as trees

The tokens of a document form a tree of scalars, sequences and mappings. An alias stands for the
node that its anchor marks, which must be complete by then.
-/

namespace Courtesy.Yaml

/-- A node. A scalar that is not implicit stands for its text whatever it looks like. -/
inductive Node where
  | scalar (tag : String) (text : String) (implicit : Bool)
  | sequence (items : List Node)
  | mapping (pairs : List (Node × Node))
  deriving Repr, Inhabited

/-- The node of something that is left out. -/
def Node.empty : Node := .scalar "" "" true

namespace Reader

/-- What is known while a document is read: the tokens ahead, the anchors, which have no node while
it is being read, and what the tag handles stand for. -/
structure State where
  tokens : List Token
  anchors : List (String × Option Node) := []
  handles : List (String × String) := []
  deriving Repr, Inhabited

end Reader

/-- A step in reading a document, which fails where the tokens form none. -/
abbrev Reader := StateT Reader.State Option

namespace Reader

/-- The next token. -/
def peek : Reader Token := do
  match (← get).tokens with
  | t :: _ => return t
  | [] => failure

def skip : Reader Unit := modify fun s => { s with tokens := s.tokens.drop 1 }

/-- Skips a given token, which has to be next. -/
def expect (t : Token) : Reader Unit := do
  if (← peek) = t then skip else failure

def setAnchor (name : Option String) (n : Option Node) : Reader Unit :=
  match name with
  | none => pure ()
  | some name => modify fun s => { s with anchors := (name, n) :: s.anchors }

/-- The node that an alias stands for. -/
def aliased (name : String) : Reader Node := do
  match (← get).anchors.lookup name with
  | some (some n) => return n
  | _ => failure

/-- The handles that every document knows. -/
def defaultHandles : List (String × String) := [("!", "!"), ("!!", "tag:yaml.org,2002:")]

/-- The tag with a given handle and suffix. -/
def fullTag (handle suffix : String) : Reader String := do
  if handle == "" then return suffix
  else match ((← get).handles ++ defaultHandles).lookup handle with
    | some lead => return lead ++ suffix
    | none => failure

/-- The anchor and the tag in front of a node, in either order. -/
def properties : Reader (Option String × Option String) := do
  match ← peek with
  | .anchor name =>
    skip
    match ← peek with
    | .tag h s => skip; return (some name, some (← fullTag h s))
    | _ => return (some name, none)
  | .tag h s =>
    skip
    let tag ← fullTag h s
    match ← peek with
    | .anchor name => skip; return (some name, some tag)
    | _ => return (none, some tag)
  | _ => return (none, none)

/-- Whether a token is one of those that leave out the node in front of them. -/
def omits (ends : List Token) : Reader Bool := return ends.contains (← peek)

mutual

/-- A node. Block collections are read only in a block, and a sequence that is not indented only
where a mapping allows it. The first argument bounds the depth. -/
def node : Nat → (block indentless : Bool) → Reader Node
  | 0, _, _ => failure
  | fuel + 1, block, indentless => do
    match ← peek with
    | .alias name => skip; aliased name
    | _ =>
      let (anchor, tag) ← properties
      setAnchor anchor none
      let n ← content fuel block indentless (tag.getD "") (anchor.isSome || tag.isSome)
      setAnchor anchor (some n)
      return n

/-- What stands behind the anchor and the tag of a node; it may be left out if there is one. -/
def content : Nat → (block indentless : Bool) → (tag : String) → (marked : Bool) → Reader Node
  | 0, _, _, _, _ => failure
  | fuel + 1, block, indentless, tag, marked => do
    match ← peek with
    | .blockEntry => if indentless then .sequence <$> indentlessItems fuel else omitted tag marked
    | .scalar text plain =>
      skip
      return .scalar tag text ((tag == "" && plain) || tag == "!")
    | .flowSequence => skip; .sequence <$> flowItems fuel true
    | .flowMapping => skip; .mapping <$> flowPairs fuel true
    | .blockSequence => if block then skip; .sequence <$> blockItems fuel else omitted tag marked
    | .blockMapping => if block then skip; .mapping <$> blockPairs fuel else omitted tag marked
    | _ => omitted tag marked

/-- A node that is left out behind an anchor or a tag. -/
def omitted (tag : String) (marked : Bool) : Reader Node :=
  if marked then return .scalar tag "" (tag == "") else failure

/-- The items of a block sequence. -/
def blockItems : Nat → Reader (List Node)
  | 0 => failure
  | fuel + 1 => do
    match ← peek with
    | .blockEntry =>
      skip
      let item ← if ← omits [.blockEntry, .blockEnd] then pure Node.empty
        else node fuel true false
      return item :: (← blockItems fuel)
    | .blockEnd => skip; return []
    | _ => failure

/-- The items of a sequence that is indented like the mapping around it. -/
def indentlessItems : Nat → Reader (List Node)
  | 0 => failure
  | fuel + 1 => do
    match ← peek with
    | .blockEntry =>
      skip
      let item ← if ← omits [.blockEntry, .key, .value, .blockEnd] then pure Node.empty
        else node fuel true false
      return item :: (← indentlessItems fuel)
    | _ => return []

/-- The pairs of a block mapping. -/
def blockPairs : Nat → Reader (List (Node × Node))
  | 0 => failure
  | fuel + 1 => do
    match ← peek with
    | .key =>
      skip
      let k ← if ← omits [.key, .value, .blockEnd] then pure Node.empty else node fuel true true
      let v ← match ← peek with
        | .value =>
          skip
          if ← omits [.key, .value, .blockEnd] then pure Node.empty else node fuel true true
        | _ => pure Node.empty
      return (k, v) :: (← blockPairs fuel)
    | .blockEnd => skip; return []
    | _ => failure

/-- The items of a flow sequence; an item may be a single pair. -/
def flowItems : Nat → (first : Bool) → Reader (List Node)
  | 0, _ => failure
  | fuel + 1, first => do
    match ← peek with
    | .flowSequenceEnd => skip; return []
    | t =>
      if !first then expect .flowEntry
      match ← (if first then pure t else peek) with
      | .flowSequenceEnd => skip; return []
      | .key =>
        skip
        let k ← if ← omits [.value, .flowEntry, .flowSequenceEnd] then pure Node.empty
          else node fuel false false
        let v ← flowValue fuel .flowSequenceEnd
        return .mapping [(k, v)] :: (← flowItems fuel false)
      | _ =>
        let item ← node fuel false false
        return item :: (← flowItems fuel false)

/-- The pairs of a flow mapping; a pair may lack its value. -/
def flowPairs : Nat → (first : Bool) → Reader (List (Node × Node))
  | 0, _ => failure
  | fuel + 1, first => do
    match ← peek with
    | .flowMappingEnd => skip; return []
    | t =>
      if !first then expect .flowEntry
      match ← (if first then pure t else peek) with
      | .flowMappingEnd => skip; return []
      | .key =>
        skip
        let k ← if ← omits [.value, .flowEntry, .flowMappingEnd] then pure Node.empty
          else node fuel false false
        let v ← flowValue fuel .flowMappingEnd
        return (k, v) :: (← flowPairs fuel false)
      | _ =>
        let k ← node fuel false false
        return (k, Node.empty) :: (← flowPairs fuel false)

/-- The value of a pair in a flow collection that ends in a given token. -/
def flowValue : Nat → (close : Token) → Reader Node
  | 0, _ => failure
  | fuel + 1, close => do
    match ← peek with
    | .value =>
      skip
      if ← omits [.flowEntry, close] then pure Node.empty else node fuel false false
    | _ => pure Node.empty

end

/-- The directives in front of a document: at most one version, which is 1.1, and tag handles, each
at most once. The first argument bounds their number. -/
def directives : Nat → (versioned : Bool) → Reader Unit
  | 0, _ => failure
  | fuel + 1, versioned => do
    match ← peek with
    | .versionDirective major minor =>
      if versioned || major ≠ 1 || minor ≠ 1 then failure
      else
        skip
        directives fuel true
    | .tagDirective handle lead =>
      if ((← get).handles.lookup handle).isSome then failure
      else
        skip
        modify fun s => { s with handles := (handle, lead) :: s.handles }
        directives fuel versioned
    | _ => pure ()

/-- Whether a token leaves the content of a document out. -/
def endsDocument : Token → Bool
  | .versionDirective _ _ | .tagDirective _ _ | .documentStart | .documentEnd | .streamEnd => true
  | _ => false

/-- The first document of a stream, if there is one. -/
def document (fuel : Nat) : Reader (Option Node) := do
  match ← peek with
  | .streamEnd => return none
  | .versionDirective _ _ | .tagDirective _ _ | .documentStart =>
    directives fuel false
    expect .documentStart
    let n ← if endsDocument (← peek) then pure Node.empty else node fuel true false
    let _ ← peek
    return some n
  | _ =>
    let n ← node fuel true false
    let _ ← peek
    return some n

end Reader

/-- The first document of a text: none of the inner kind when there is no document, none of the
outer kind when the text is malformed. -/
def Node.read? (text : String) : Option (Option Node) :=
  let tokens := Token.scan text
  ((Reader.document (3 * tokens.length + 4)).run { tokens := tokens }).map (·.1)

end Courtesy.Yaml
