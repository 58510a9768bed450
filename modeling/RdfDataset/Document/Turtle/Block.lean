import RdfDataset.Document.Turtle.Statement

/-!
# Blocks of Turtle and TriG documents

A Turtle document consists of directives and statements; a TriG document has graphs as well, whose statements stand
in braces.

* `readTurtleBlock` and `readTrigBlock` read one block.
* `readBlocks` reads blocks up to the end of the text, each of which is at least one character long.
* `readDocument` gives the statements of a document in order.
-/

namespace RdfDataset.Document.Turtle

/-! ### Directives -/

/-- Binds a prefix. -/
def bindPrefix : Reading Unit := do
  skip
  let name ← token readPrefixName
  skip
  let iri ← token (readIri (← get).base)
  modify fun p => { p with prefixes := p.prefixes.insert name iri }

/-- Sets the base that later references are resolved against. -/
def setBase : Reading Unit := do
  skip
  let base ← token (readReference (← get).base)
  modify fun p => { p with base := some base }

/-- Follows a directive behind its keyword. -/
def followDirective : Directive → Reading Unit
  | .bindPrefix withStop => do
    bindPrefix
    endDirective withStop
  | .setBase withStop => do
    setBase
    endDirective withStop
where
  endDirective (withStop : Bool) : Reading Unit := do
    if withStop then
      skip
      expect "."

/-! ### Turtle -/

/-- A statement and the full stop behind it. -/
def readStatement : Reading Unit := do
  readTriples
  skip
  expect "."

/-- A directive or a statement. -/
def readTurtleBlock : Reading Unit := do
  match readDirective (← upcoming) with
  | some (directive, rest) =>
    proceed rest
    followDirective directive
  | none => readStatement

/-! ### TriG -/

/-- The statements of a graph with full stops between them, up to the closing brace. -/
def readGraphStatements : Nat → Reading Unit
  | 0 => malformed
  | bound + 1 => do
    skip
    if !(← accept "\x7d") then
      readTriples
      skip
      if ← accept "." then readGraphStatements bound else expect "\x7d"

/-- The statements of a graph in braces. -/
def readGraph (name : Term) : Reading Unit := do
  expect "\x7b"
  modify fun p => { p with graph := name }
  readGraphStatements ((← upcoming).length + 1)
  modify fun p => { p with graph := .defaultGraph }

/-- An IRI or a blank node, with which a graph or a statement can begin. -/
def readLabelTerm : Reading Term := do
  let t ← readFlatTerm
  if t.isLiteral then malformed
  return t

/-- A graph with its name, or a statement in the default graph. -/
def readGraphOrStatement : Reading Unit := do
  let t ← readLabelTerm
  skip
  if (← upcoming).head? == some '\x7b' then readGraph t
  else
    readDescription t
    skip
    expect "."

/-- A directive, a graph or a statement. -/
def readTrigBlock : Reading Unit := do
  let cs ← upcoming
  match readDirective cs, afterKeyword? "GRAPH" cs with
  | some (directive, rest), _ =>
    proceed rest
    followDirective directive
  | none, some rest =>
    proceed rest
    skip
    let name ← readLabelTerm
    skip
    readGraph name
  | none, none =>
    if cs.head? == some '\x7b' then readGraph .defaultGraph
    else if startsConstruct cs then readStatement
    else readGraphOrStatement

/-! ### Documents -/

/-- Blocks with space before and behind them, up to the end of the text. -/
def readBlocks (readBlock : Reading Unit) : Nat → Reading Unit
  | 0 => malformed
  | bound + 1 => do
    skip
    if !(← upcoming).isEmpty then
      readBlock
      readBlocks readBlock bound

/-- The statements of a document. -/
def readDocument (readBlock : Reading Unit) (base : Option Iri.Reference) (text : List Char) :
    Except ReadError (List Quad) := do
  let (_, p) ← (readBlocks readBlock (text.length + 1)).run { rest := text, base }
  return p.quads.reverse

end RdfDataset.Document.Turtle
