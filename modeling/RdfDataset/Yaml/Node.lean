import RdfDataset.Yaml.Token

/-!
# Nodes

A YAML document is a tree of scalars, sequences and mappings.

* `Node` is such a tree, with its aliases replaced by what they stand for.
* `read` reads a text that holds at most one document.
-/

namespace RdfDataset.Yaml

inductive Node
  | scalar (style : Style) (tag : Option String) (text : String)
  | sequence (items : List Node)
  | mapping (entries : List (Node × Node))
  deriving Repr, Inhabited

/-- What is written as nothing at all. -/
def Node.empty : Node :=
  .scalar .plain none ""

/-- What has been read of a document: the tokens that are left, and what anchors and tag handles stand for. -/
structure Assembly where
  tokens : List Token
  anchors : List (List Char × Node) := []
  handles : List (List Char × List Char) := []
  deriving Inhabited

namespace Assembly

abbrev Building := StateT Assembly Option

def next : Building (Option Token) := do
  return (← get).tokens.head?

def pop : Building Unit :=
  modify fun a => { a with tokens := a.tokens.drop 1 }

/-- Takes the next token if it is the given one. -/
def accept (t : Token) : Building Bool := do
  if (← next) = some t then
    pop
    return true
  else return false

/-- Takes the next token, which has to be the given one. -/
def expect (t : Token) : Building Unit := do
  if !(← accept t) then failure

/-- Whether the next token is one of some tokens. -/
def isNext (ts : List Token) : Building Bool := do
  return (← next).any (ts.contains ·)

/-- Lets the anchor of a node stand for it.  Inside the node itself it stands for `placeholder`. -/
def withAnchor (anchor : Option (List Char)) (placeholder : Node) (build : Building Node) : Building Node :=
  match anchor with
  | none => build
  | some name => do
    let before := (← get).anchors.length
    modify fun a => { a with anchors := (name, placeholder) :: a.anchors }
    let node ← build
    modify fun a => { a with anchors := a.anchors.set (a.anchors.length - 1 - before) (name, node) }
    return node

/-- The tag that a handle and a suffix stand for. -/
def resolveTag (handle suffix : List Char) : Building String := do
  if handle.isEmpty then return String.ofList suffix
  match (← get).handles.find? (·.1 == handle) with
  | some (_, start) => return String.ofList (start ++ suffix)
  | none => failure

/-- The anchor and the tag before a node, in either order. -/
def readProperties : Building (Option (List Char) × Option String) := do
  match ← next with
  | some (.anchor name) =>
    pop
    match ← next with
    | some (.tag handle suffix) =>
      pop
      return (some name, some (← resolveTag handle suffix))
    | _ => return (some name, none)
  | some (.tag handle suffix) =>
    pop
    let tag ← resolveTag handle suffix
    match ← next with
    | some (.anchor name) =>
      pop
      return (some name, some tag)
    | _ => return (none, some tag)
  | _ => return (none, none)

/-- A node that consists of an anchor or a tag alone. -/
def emptyNode (anchor : Option (List Char)) (tag : Option String) : Building Node := do
  if anchor.isNone && tag.isNone then failure
  let node := Node.scalar .plain tag ""
  withAnchor anchor node (pure node)

mutual

/-- Reads a node, which is no indented collection unless `isBlock`.  Within a mapping, a sequence need not be indented
deeper than the mapping: this is what `isValue` allows.  The recursion is bounded by a number that the number of tokens
never exceeds. -/
def readNode (isBlock isValue : Bool) : Nat → Building Node
  | 0 => failure
  | bound + 1 => do
    match ← next with
    | some (.alias name) =>
      pop
      match (← get).anchors.find? (·.1 == name) with
      | some (_, node) => return node
      | none => failure
    | _ =>
      let (anchor, tag) ← readProperties
      match ← next with
      | some (.scalar style text) =>
        pop
        let node := Node.scalar style tag (String.ofList text)
        withAnchor anchor node (pure node)
      | some t =>
        if isValue && t == .blockEntry then withAnchor anchor (.sequence []) (.sequence <$> readLooseItems bound)
        else if t == .flowSequence then
          pop
          withAnchor anchor (.sequence []) (.sequence <$> readFlowItems true bound)
        else if t == .flowMapping then
          pop
          withAnchor anchor (.mapping []) (.mapping <$> readFlowEntries true bound)
        else if isBlock && t == .blockSequence then
          pop
          withAnchor anchor (.sequence []) (.sequence <$> readItems bound)
        else if isBlock && t == .blockMapping then
          pop
          withAnchor anchor (.mapping []) (.mapping <$> readEntries bound)
        else emptyNode anchor tag
      | none => emptyNode anchor tag

/-- The node before one of some tokens: the empty one if such a token is the next one. -/
def readNodeBefore (isBlock isValue : Bool) (ends : List Token) : Nat → Building Node
  | 0 => failure
  | bound + 1 => do
    if ← isNext ends then return .empty
    readNode isBlock isValue bound

/-- The items of an indented sequence. -/
def readItems : Nat → Building (List Node)
  | 0 => failure
  | bound + 1 => do
    if ← accept .blockEntry then
      let item ← readNodeBefore true false [.blockEntry, .blockEnd] bound
      return item :: (← readItems bound)
    expect .blockEnd
    return []

/-- The items of a sequence that is not indented deeper than the mapping around it. -/
def readLooseItems : Nat → Building (List Node)
  | 0 => failure
  | bound + 1 => do
    if ← accept .blockEntry then
      let item ← readNodeBefore true false [.blockEntry, .key, .value, .blockEnd] bound
      return item :: (← readLooseItems bound)
    return []

/-- The entries of an indented mapping. -/
def readEntries : Nat → Building (List (Node × Node))
  | 0 => failure
  | bound + 1 => do
    if ← accept .blockEnd then return []
    expect .key
    let ends := [Token.key, .value, .blockEnd]
    let key ← readNodeBefore true true ends bound
    let value ← if ← accept .value then readNodeBefore true true ends bound else pure .empty
    return (key, value) :: (← readEntries bound)

/-- The items of a sequence in brackets.  An item that has a colon is a mapping with one entry. -/
def readFlowItems (isFirst : Bool) : Nat → Building (List Node)
  | 0 => failure
  | bound + 1 => do
    if ← accept .flowSequenceEnd then return []
    if !isFirst then
      expect .flowEntry
    if ← accept .flowSequenceEnd then return []
    let item ←
      if ← accept .key then
        let key ← readNodeBefore false false [.value, .flowEntry, .flowSequenceEnd] bound
        let value ←
          if ← accept .value then readNodeBefore false false [.flowEntry, .flowSequenceEnd] bound else pure .empty
        pure (.mapping [(key, value)])
      else readNode false false bound
    return item :: (← readFlowItems false bound)

/-- The entries of a mapping in braces. -/
def readFlowEntries (isFirst : Bool) : Nat → Building (List (Node × Node))
  | 0 => failure
  | bound + 1 => do
    if ← accept .flowMappingEnd then return []
    if !isFirst then
      expect .flowEntry
    if ← accept .flowMappingEnd then return []
    if ← accept .key then
      let key ← readNodeBefore false false [.value, .flowEntry, .flowMappingEnd] bound
      let value ←
        if ← accept .value then readNodeBefore false false [.flowEntry, .flowMappingEnd] bound else pure .empty
      return (key, value) :: (← readFlowEntries false bound)
    let key ← readNode false false bound
    return (key, .empty) :: (← readFlowEntries false bound)

end

/-! ### Documents -/

/-- The directives before a document.  Each can be given once. -/
def readDirectives : Nat → Bool → Building Bool
  | 0, _ => failure
  | bound + 1, hasVersion => do
    match ← next with
    | some (.version major minor) =>
      if hasVersion || major != 1 || !(minor == 1 || minor == 2) then failure
      pop
      readDirectives bound true
    | some (.tagHandle handle start) =>
      if (← get).handles.any (·.1 == handle) then failure
      pop
      modify fun a => { a with handles := (handle, start) :: a.handles }
      readDirectives bound hasVersion
    | _ => return hasVersion || !(← get).handles.isEmpty

/-- The handles that need no directive. -/
def standardHandles : List (List Char × List Char) :=
  [(['!'], ['!']), (['!', '!'], "tag:yaml.org,2002:".toList)]

/-- The node of a document, if there is a document. -/
def readDocument (bound : Nat) : Building (Option Node) := do
  if (← next).isNone then return none
  let hasDirectives ← readDirectives bound false
  modify fun a => { a with handles := a.handles ++ standardHandles }
  let isExplicit ← accept .documentStart
  if hasDirectives && !isExplicit then failure
  if isExplicit && ((← next).all fun t => t == .documentStart || t == .documentEnd) then return some .empty
  return some (← readNode true false bound)

/-- The node of a text that holds at most one document. -/
def readAll (bound : Nat) : Building (Option Node) := do
  let node ← readDocument bound
  modify fun a => { a with tokens := a.tokens.dropWhile (· == .documentEnd) }
  if (← next).isSome then failure
  return node

end Assembly

/-- The node of a text.  There is none if the text holds nothing but space and comments. -/
def read (text : List Char) : Option (Option Node) := do
  let tokens ← scan text
  let (node, _) ← (Assembly.readAll (3 * tokens.length + 4)).run { tokens }
  return node

end RdfDataset.Yaml
