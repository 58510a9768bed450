import RdfDataset.Document.Turtle.Progress

/-!
# Statements of Turtle and TriG

A statement is a subject with a list of predicates, each of which has a list of objects.

* `readTerm` reads a term.  A collection and a list of properties in brackets report the statements that they consist
  of before the term is used.
* `readPredicates` and `readObjects` read the lists and report one statement for each object, and what annotations
  say about it.
* `readTriples` reads a subject and what is stated about it.

The number of open constructs is bounded by `maxDepth`; the length of the lists is bounded by the length of the text.
-/

namespace RdfDataset.Document.Turtle

/-! ### Terms without inner statements -/

/-- An IRI, in angle brackets or with a prefix. -/
def readIriTerm : Reading Term := do
  let p ← get
  match p.rest with
  | '<' :: _ => Term.iri <$> token (readIri p.base)
  | _ => Term.iri <$> token (readPrefixed p.prefixes)

/-- A blank node that is written with a label. -/
def readBlankTerm : Reading Term := do
  expect "_:"
  let label ← token readLabel
  return .blank (keepApart label)

/-- A literal whose value is in quotation marks. -/
def readQuotedLiteral : Reading Term := do
  let p ← get
  let readDatatype (cs : List Char) : Option (String × List Char) :=
    match cs with
    | '<' :: _ => readIri p.base cs
    | _ => readPrefixed p.prefixes cs
  let value ← token readQuotation
  Term.literal <$> token (readLiteralEnd dropSpace readDatatype value)

/-- A boolean or an IRI. -/
def readWord : Reading Term := do
  match readBoolean (← upcoming) with
  | some (l, rest) =>
    proceed rest
    return .literal l
  | none => readIriTerm

/-- An IRI, a blank node or a literal. -/
def readSimpleTerm : Reading Term := do
  match ← upcoming with
  | '_' :: _ => readBlankTerm
  | '"' :: _ | '\'' :: _ => readQuotedLiteral
  | c :: _ =>
    if c == '+' || c == '-' || c == '.' || c.isDigit then Term.literal <$> token readNumber else readWord
  | [] => malformed

/-- A predicate: an IRI, or the word `a` for the type predicate. -/
def readVerb : Reading Term := do
  match ← upcoming with
  | 'a' :: cs =>
    if endsTypeVerb cs then
      proceed cs
      return .iri Vocabulary.Rdf.type
    else readIriTerm
  | _ => readIriTerm

/-- A term in which nothing is nested, or an empty pair of brackets, which stands for a new node. -/
def readFlatTerm : Reading Term := do
  match afterEmptyBrackets? (← upcoming) with
  | some rest =>
    proceed rest
    newBlank
  | none => readSimpleTerm

/-! ### Quoted triples -/

/-- A quoted triple, of which at most `depth` may be open.  It has no inner statements. -/
def readQuoted : Nat → Reading Term
  | 0 => malformed
  | depth + 1 => do
    let readPart : Reading Term := do
      match ← upcoming with
      | '<' :: '<' :: _ => readQuoted depth
      | _ => readFlatTerm
    expect "<<"
    skip
    let s ← readPart
    if s.isLiteral then malformed
    skip
    let p ← readVerb
    skip
    let o ← readPart
    skip
    expect ">>"
    return .quoted s p o .defaultGraph

/-! ### Lists of predicates and objects -/

/-- Whether a list of predicates ends here, although a semicolon stands before it. -/
def endsPredicates : List Char → Bool
  | [] => true
  | '|' :: '}' :: _ => true
  | c :: _ => c == '.' || c == ']' || c == '}'

mutual

/-- The predicates of a subject with their objects. -/
def readPredicates (inner : Reading Term) : Nat → Term → Reading Unit
  | 0, _ => malformed
  | bound + 1, s => do
    let p ← readVerb
    skip
    readObjects inner bound s p
    if ← accept ";" then
      proceed (dropSemicolons (← upcoming))
      if !endsPredicates (← upcoming) then readPredicates inner bound s

/-- The objects of a subject and a predicate with their annotations. -/
def readObjects (inner : Reading Term) : Nat → Term → Term → Reading Unit
  | 0, _, _ => malformed
  | bound + 1, s, p => do
    let o ← inner
    emit s p o
    skip
    if ← accept "\x7b|" then
      skip
      readPredicates inner bound (.quoted s p o .defaultGraph)
      expect "|\x7d"
      skip
    if ← accept "," then
      skip
      readObjects inner bound s p

end

/-! ### Terms with inner statements -/

/-- The lists of predicates of a node in brackets, up to the closing one. -/
def readProperties (inner : Reading Term) : Nat → Term → Reading Unit
  | 0, _ => malformed
  | bound + 1, node => do
    readPredicates inner (bound + 1) node
    if !(← accept "]") then readProperties inner bound node

/-- A node in brackets with its predicates. -/
def readPropertyList (inner : Reading Term) : Reading Term := do
  expect "["
  skip
  let node ← newBlank
  readProperties inner (← upcoming).length node
  return node

/-- The items of a collection from the one in `cell` on. -/
def readItems (inner : Reading Term) : Nat → Term → Reading Unit
  | 0, _ => malformed
  | bound + 1, cell => do
    let item ← inner
    emit cell (.iri Vocabulary.Rdf.first) item
    skip
    if ← accept ")" then emit cell (.iri Vocabulary.Rdf.rest) (.iri Vocabulary.Rdf.nil)
    else
      let next ← newBlank
      emit cell (.iri Vocabulary.Rdf.rest) next
      readItems inner bound next

/-- A collection: its first cell, or the empty list. -/
def readCollection (inner : Reading Term) : Reading Term := do
  expect "("
  skip
  if ← accept ")" then return .iri Vocabulary.Rdf.nil
  let cell ← newBlank
  readItems inner (← upcoming).length cell
  return cell

/-- Whether a construct begins here that can hold other terms. -/
def startsConstruct (cs : List Char) : Bool :=
  match cs with
  | '(' :: _ | '<' :: '<' :: _ => true
  | '[' :: _ => (afterEmptyBrackets? cs).isNone
  | _ => false

/-- A term, with at most `depth` constructs open. -/
def readTerm : Nat → Reading Term
  | 0 => do
    if startsConstruct (← upcoming) then malformed
    readFlatTerm
  | depth + 1 => do
    let cs ← upcoming
    if startsConstruct cs then
      match cs with
      | '(' :: _ => readCollection (readTerm depth)
      | '[' :: _ => readPropertyList (readTerm depth)
      | _ => readQuoted (depth + 1)
    else readFlatTerm

/-! ### Subjects -/

/-- The predicates of a subject that has been read. -/
def readDescription (s : Term) : Reading Unit := do
  readPredicates (readTerm maxDepth) (← upcoming).length s

/-- Whether a list of properties begins here. -/
def startsProperties (cs : List Char) : Bool :=
  cs.head? == some '[' && startsConstruct cs

/-- A subject and what is stated about it.  Behind a list of properties nothing more has to be stated. -/
def readTriples : Reading Unit := do
  let hasProperties := startsProperties (← upcoming)
  let s ← readTerm maxDepth
  if s.isLiteral then malformed
  skip
  let next := (← upcoming).head?
  if !(hasProperties && (next == some '.' || next == some '}')) then readDescription s

end RdfDataset.Document.Turtle
