import RdfDataset.Document.Error
import RdfDataset.Document.Report
import RdfDataset.Document.Turtle.Token

/-!
# Reading step by step

While a Turtle or TriG document is read, `Progress` holds what has been learnt from it so far; `Reading` is a step
that can fail.

* `emit` reports a statement in the current graph and makes a quad of it.
* `newBlank` labels a node that has no label in the document; `keepApart` renames the written labels that could be
  mistaken for such a label.
-/

namespace RdfDataset.Document.Turtle

/-- How far a document has been read, and what is known from it. -/
structure Progress where
  rest : List Char
  base : Option Iri.Reference := none
  prefixes : PrefixMap := {}
  graph : Term := .defaultGraph
  /-- The number of nodes that have been labelled. -/
  labelled : Nat := 0
  /-- The quads so far, the last one first. -/
  quads : List Quad := []
  deriving Inhabited

abbrev Reading := StateT Progress (Except ReadError)

/-- The text that is still to be read. -/
def upcoming : Reading (List Char) := do
  return (← get).rest

def proceed (rest : List Char) : Reading Unit :=
  modify fun p => { p with rest }

def malformed {α : Type} : Reading α :=
  throw .malformed

/-- Reads a token. -/
def token {α : Type} (read : List Char → Option (α × List Char)) : Reading α := do
  match read (← upcoming) with
  | some (a, rest) =>
    proceed rest
    return a
  | none => malformed

/-- Reads white space and comments. -/
def skip : Reading Unit := do
  proceed (dropSpace (← upcoming))

/-- Whether the text goes on with some characters, which are read in that case. -/
def accept (mark : String) : Reading Bool := do
  let cs ← upcoming
  if mark.toList.isPrefixOf cs then
    proceed (cs.drop mark.length)
    return true
  else return false

/-- Reads some characters that have to come next. -/
def expect (mark : String) : Reading Unit := do
  if !(← accept mark) then malformed

/-! ### Blank nodes -/

/-- How the labels of nodes begin that have no label in the document. -/
def generatedStart : String := "riog"

/-- The label of the `n`-th such node, with at least eight digits. -/
def generatedLabel (n : Nat) : String :=
  let digits := Nat.toDigits 10 n
  generatedStart ++ String.ofList (List.replicate (8 - digits.length) '0' ++ digits)

/-- Whether a label consists of the beginning of a generated one, eight digits and any number of `d`. -/
def resemblesGenerated (label : List Char) : Bool :=
  let number := label.drop generatedStart.length
  generatedStart.toList.isPrefixOf label && 8 ≤ number.length && (number.take 8).all Char.isDigit
    && (number.drop 8).all (· == 'd')

/-- A label that resembles a generated one gets one more `d`; so no two labels become one. -/
def keepApart (label : String) : String :=
  if resemblesGenerated label.toList then label.push 'd' else label

/-- A node with the next generated label. -/
def newBlank : Reading Term := do
  let n := (← get).labelled + 1
  modify fun p => { p with labelled := n }
  return .blank (generatedLabel n)

/-! ### Statements -/

/-- Reports a statement in the current graph. -/
def emit (s p o : Term) : Reading Unit := do
  let r : Report := ⟨s, p, o, (← get).graph⟩
  match r.convert with
  | .error reason => throw (.term reason)
  | .ok q => modify fun p => { p with quads := q :: p.quads }

end RdfDataset.Document.Turtle
