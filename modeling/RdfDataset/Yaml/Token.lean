import RdfDataset.Yaml.Scalar

/-!
# Tokens

A YAML document as a list of tokens.  Collections that are only indented have tokens of their own for their
beginning and their end.

A key is recognized by the colon behind it.  What could be a key is remembered as a candidate together with its place
among the tokens; at the colon, the token for a key is put there, and the one for the beginning of a mapping too if
the key stands deeper than the collection around it.

* `scan` gives the tokens of a text.
-/

namespace RdfDataset.Yaml

inductive Token
  | version (major minor : Nat)
  | tagHandle (handle start : List Char)
  | documentStart
  | documentEnd
  | blockSequence
  | blockMapping
  | blockEnd
  | flowSequence
  | flowSequenceEnd
  | flowMapping
  | flowMappingEnd
  | blockEntry
  | flowEntry
  | key
  | value
  | alias (name : List Char)
  | anchor (name : List Char)
  | tag (handle suffix : List Char)
  | scalar (style : Style) (text : List Char)
  deriving DecidableEq, Repr, Inhabited

/-- Something that is a key if a colon follows it: where it begins, and its place among the tokens.  It is required to
be one if nothing else can stand there. -/
structure Candidate where
  place : Cursor
  tokenCount : Nat
  isRequired : Bool
  deriving Repr

/-- How many characters there can be between the beginning of a key and its colon. -/
def maxKeyLength : Nat := 1024

/-- How far a text has been scanned. -/
structure Scan where
  cursor : Cursor
  tokens : List Token := []
  /-- The columns of the indented collections that are open, the innermost one first. -/
  indents : List Nat := []
  /-- Whether a key can begin here. -/
  keyAllowed : Bool := true
  /-- The candidate in the innermost brackets or braces, or in the indented collections. -/
  candidate : Option Candidate := none
  /-- The candidates around the brackets and braces that are open, the innermost ones first. -/
  outer : List (Option Candidate) := []
  deriving Inhabited

namespace Scan

/-- Whether brackets or braces are open. -/
def inFlow (s : Scan) : Bool :=
  !s.outer.isEmpty

def rest (s : Scan) : List Char :=
  s.cursor.rest

def add (s : Scan) (t : Token) : Scan :=
  { s with tokens := s.tokens ++ [t] }

/-- Adds a token that consists of the next `n` characters. -/
def addMark (s : Scan) (t : Token) (n : Nat) : Scan :=
  { s.add t with cursor := s.cursor.skip n }

def allowKey (s : Scan) (keyAllowed : Bool) : Scan :=
  { s with keyAllowed }

/-- Drops the candidate, unless it was required to be a key. -/
def dropCandidate (s : Scan) : Option Scan :=
  if s.candidate.any (·.isRequired) then none else some { s with candidate := none }

/-- Makes what begins here the candidate. -/
def markCandidate (s : Scan) : Option Scan :=
  if s.keyAllowed then do
    let s ← s.dropCandidate
    let isRequired := !s.inFlow && s.indents.head? == some s.cursor.column
    return { s with candidate := some ⟨s.cursor, s.tokens.length, isRequired⟩ }
  else some s

/-- Whether a candidate is too far away to be a key: on a line before, or many characters before. -/
def isStale (s : Scan) (c : Candidate) : Bool :=
  c.place.line < s.cursor.line || c.place.index + maxKeyLength < s.cursor.index

/-- Drops the candidates that are too far away. -/
def dropStale (s : Scan) : Option Scan := do
  let check (candidate : Option Candidate) : Option (Option Candidate) :=
    match candidate with
    | some c => if s.isStale c then (if c.isRequired then none else some none) else some (some c)
    | none => some none
  return { s with candidate := ← check s.candidate, outer := ← s.outer.mapM check }

/-- Opens an indented collection at a column that is deeper than the current one; its token is put behind the first
`count` tokens. -/
def openBlock (s : Scan) (column count : Nat) (t : Token) : Scan :=
  if !s.inFlow && s.indents.head?.all (· < column) then
    { s with indents := column :: s.indents, tokens := s.tokens.take count ++ t :: s.tokens.drop count }
  else s

/-- Closes the indented collections that begin at or behind a column. -/
def closeBlocks (s : Scan) (column : Nat) : Scan :=
  if s.inFlow then s
  else
    let closed := s.indents.takeWhile (column ≤ ·)
    { s with
      indents := s.indents.drop closed.length
      tokens := s.tokens ++ closed.map fun _ => .blockEnd }

/-- Drops space and comments.  Where a key can begin, a tab is no space; behind a line break a key can begin. -/
def dropSpace (inFlow : Bool) : (inComment keyAllowed : Bool) → List Char → Bool × List Char
  | _, keyAllowed, [] => (keyAllowed, [])
  | inComment, keyAllowed, c :: cs =>
    if isBreak c then dropSpace inFlow false (keyAllowed || !inFlow) cs
    else if inComment then dropSpace inFlow true keyAllowed cs
    else if c == ' ' || (c == '\t' && (inFlow || !keyAllowed)) then dropSpace inFlow false keyAllowed cs
    else if c == '#' then dropSpace inFlow true keyAllowed cs
    else (keyAllowed, c :: cs)

/-- Goes to the next token. -/
def skipSpace (s : Scan) : Scan :=
  let (keyAllowed, rest) := dropSpace s.inFlow false s.keyAllowed s.rest
  { s with cursor := s.cursor.moveTo rest, keyAllowed }

/-! ### Indicators -/

/-- A mark between documents, or a directive. -/
def beginDocument (s : Scan) : Option Scan := do
  return (← (s.closeBlocks 0).dropCandidate).allowKey false

def openFlow (s : Scan) (t : Token) : Option Scan := do
  let s ← s.markCandidate
  return { (s.addMark t 1).allowKey true with candidate := none, outer := s.candidate :: s.outer }

def closeFlow (s : Scan) (t : Token) : Option Scan := do
  let s ← s.dropCandidate
  let s := (s.addMark t 1).allowKey false
  match s.outer with
  | [] => return s
  | candidate :: outer => return { s with candidate, outer }

def readFlowEntry (s : Scan) : Option Scan := do
  return ((← s.dropCandidate).addMark .flowEntry 1).allowKey true

def readBlockEntry (s : Scan) : Option Scan := do
  if !s.inFlow && !s.keyAllowed then none
  else
    let s := s.openBlock s.cursor.column s.tokens.length .blockSequence
    return ((← s.dropCandidate).addMark .blockEntry 1).allowKey true

def readKey (s : Scan) : Option Scan := do
  if !s.inFlow && !s.keyAllowed then none
  else
    let s := s.openBlock s.cursor.column s.tokens.length .blockMapping
    return ((← s.dropCandidate).addMark .key 1).allowKey (!s.inFlow)

/-- The colon behind a key.  If there is a candidate, it is the key; otherwise the key is empty. -/
def readValue (s : Scan) : Option Scan :=
  match s.candidate with
  | some c =>
    let tokens := s.tokens.take c.tokenCount ++ Token.key :: s.tokens.drop c.tokenCount
    let s := { s with tokens, candidate := none }
    let s := s.openBlock c.place.column c.tokenCount .blockMapping
    some ((s.addMark .value 1).allowKey false)
  | none =>
    if !s.inFlow && !s.keyAllowed then none
    else
      let s := s.openBlock s.cursor.column s.tokens.length .blockMapping
      some ((s.addMark .value 1).allowKey (!s.inFlow))

/-! ### Directives, anchors and tags -/

/-- A number of at most nine digits. -/
def readNumber (cs : List Char) : Option (Nat × List Char) :=
  let digits := cs.takeWhile Char.isDigit
  if digits.isEmpty || 9 < digits.length then none
  else some (digits.foldl (fun n d => 10 * n + (d.toNat - '0'.toNat)) 0, cs.drop digits.length)

/-- A character of a tag. -/
def isTagChar (c : Char) : Bool :=
  isWordChar c || ";/?:@&=+$.!~*'()%".toList.contains c

/-- A handle of tags: an exclamation mark, or a name between two of them. -/
def readHandle : List Char → Option (List Char × List Char)
  | '!' :: cs =>
    let name := cs.takeWhile isWordChar
    match cs.drop name.length with
    | '!' :: rest => some ('!' :: name ++ ['!'], rest)
    | rest => some ('!' :: name, rest)
  | _ => none

/-- A directive behind its percent sign. -/
def readDirective (cs : List Char) : Option (Token × List Char) := do
  let name := cs.takeWhile isWordChar
  let rest := cs.drop name.length
  if !atGap rest then none
  else
    let rest := rest.dropWhile isBlank
    match String.ofList name with
    | "YAML" =>
      let (major, rest) ← readNumber rest
      match rest with
      | '.' :: rest =>
        let (minor, rest) ← readNumber rest
        return (.version major minor, rest)
      | _ => none
    | "TAG" =>
      let (handle, rest) ← readHandle rest
      if handle != ['!'] && handle.getLast? != some '!' || !rest.head?.any isBlank then none
      else
        let rest := rest.dropWhile isBlank
        let start := rest.takeWhile fun c => isTagChar c || c == ',' || c == '[' || c == ']'
        let rest := rest.drop start.length
        if start.isEmpty || !atGap rest then none else return (.tagHandle handle start, rest)
    | _ => none

/-- The name of an anchor or an alias. -/
def readName (cs : List Char) : Option (List Char × List Char) :=
  let name := cs.takeWhile isWordChar
  let rest := cs.drop name.length
  if name.isEmpty || !(atGap rest || rest.head?.any fun c => "?:,]\x7d%@`".toList.contains c) then none
  else some (name, rest)

/-- A tag, which begins with an exclamation mark. -/
def readTag (inFlow : Bool) (cs : List Char) : Option (Token × List Char) := do
  let (t, rest) ← match cs with
    | '!' :: '<' :: cs =>
      let suffix := cs.takeWhile fun c => isTagChar c || c == ',' || c == '[' || c == ']'
      match cs.drop suffix.length with
      | '>' :: rest => if suffix.isEmpty then none else some (Token.tag [] suffix, rest)
      | _ => none
    | cs => do
      let (handle, afterHandle) ← readHandle cs
      let isNamed := handle.length > 1 && handle.getLast? == some '!'
      let more := afterHandle.takeWhile isTagChar
      let rest := afterHandle.drop more.length
      if isNamed then if more.isEmpty then none else some (.tag handle more, rest)
      else
        let suffix := handle.drop 1 ++ more
        some (if suffix.isEmpty then .tag [] ['!'] else .tag ['!'] suffix, rest)
  if atGap rest || (inFlow && rest.head? == some ',') then some (t, rest) else none

/-! ### Tokens -/

/-- Adds a token that has been read together with the text behind it. -/
def addRead (s : Scan) (t : Token) (rest : List Char) : Scan :=
  { s.add t with cursor := s.cursor.moveTo rest }

/-- An alias, an anchor or a tag, with which a key can begin. -/
def readProperty (s : Scan) (t : Token) (rest : List Char) : Option Scan := do
  return ((← s.markCandidate).addRead t rest).allowKey false

/-- A plain scalar. -/
def readPlainScalar (s : Scan) : Option Scan := do
  let s ← s.markCandidate
  let minColumn := s.indents.head?.elim 0 (· + 1)
  let (text, gap, rest) ← readPlain s.inFlow minColumn s.cursor.column {} s.rest
  return (s.addRead (.scalar .plain text) rest).allowKey gap.isBroken

/-- A block scalar behind its indicator. -/
def readBlockScalar (s : Scan) (isFolded : Bool) (cs : List Char) : Option Scan := do
  let s ← s.dropCandidate
  let (text, rest) ← readBlock isFolded s.indents.head? cs
  return (s.addRead (.scalar (if isFolded then .folded else .literal) text) rest).allowKey true

/-- Whether a plain scalar begins here. -/
def startsPlain (inFlow : Bool) : List Char → Bool
  | [] => false
  | c :: cs =>
    if isBlank c || isBreak c then false
    else if c == '-' then !cs.head?.any isBlank
    else if c == '?' || c == ':' then !inFlow && !atGap cs
    else !"?:,[]\x7b\x7d#&*!|>'\"%@`".toList.contains c

/-- Reads the next token. -/
def readToken (s : Scan) : Option Scan :=
  if s.cursor.column = 0 ∧ s.rest.head? = some '%' then do
    let (t, rest) ← readDirective (s.rest.drop 1)
    let rest := rest.dropWhile isBlank
    let rest := if rest.head? = some '#' then rest.dropWhile (!isBreak ·) else rest
    if rest.head?.all isBreak then return (← s.beginDocument).addRead t rest else none
  else if s.cursor.column = 0 ∧ atDocumentMark s.rest then do
    let t := if s.rest.head? = some '-' then Token.documentStart else .documentEnd
    return (← s.beginDocument).addMark t 3
  else
    match s.rest with
    | '[' :: _ => s.openFlow .flowSequence
    | '\x7b' :: _ => s.openFlow .flowMapping
    | ']' :: _ => s.closeFlow .flowSequenceEnd
    | '\x7d' :: _ => s.closeFlow .flowMappingEnd
    | ',' :: _ => s.readFlowEntry
    | '*' :: cs => (readName cs).bind fun (name, rest) => s.readProperty (.alias name) rest
    | '&' :: cs => (readName cs).bind fun (name, rest) => s.readProperty (.anchor name) rest
    | '!' :: _ => (readTag s.inFlow s.rest).bind fun (t, rest) => s.readProperty t rest
    | '\'' :: cs =>
      (readSingleQuoted cs).bind fun (text, rest) => s.readProperty (.scalar .singleQuoted text) rest
    | '"' :: cs =>
      (readDoubleQuoted cs).bind fun (text, rest) => s.readProperty (.scalar .doubleQuoted text) rest
    | c :: cs =>
      if c == '-' && atGap cs then s.readBlockEntry
      else if c == '?' && (s.inFlow || atGap cs) then s.readKey
      else if c == ':' && (s.inFlow || atGap cs) then s.readValue
      else if c == '|' && !s.inFlow then s.readBlockScalar false cs
      else if c == '>' && !s.inFlow then s.readBlockScalar true cs
      else if startsPlain s.inFlow s.rest then s.readPlainScalar
      else none
    | [] => none

/-- The tokens of the rest of a text; each of them is at least one character long. -/
def readTokens : Nat → Scan → Option (List Token)
  | 0, _ => none
  | bound + 1, s => do
    let s ← s.skipSpace.dropStale
    if s.rest.isEmpty then return (← (s.closeBlocks 0).dropCandidate).tokens
    readTokens bound (← (s.closeBlocks (s.cursor.column + 1)).readToken)

end Scan

/-- The tokens of a text. -/
def scan (text : List Char) : Option (List Token) := do
  let text ← normalize text
  Scan.readTokens (text.length + 1) { cursor := { rest := text } }

end RdfDataset.Yaml
