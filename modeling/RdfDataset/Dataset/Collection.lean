import RdfDataset.Dataset.Query

/-!
# Collections

A collection is a chain of cells: each has one `rdf:first` arc to its item and one `rdf:rest` arc to the next cell,
the last one to `rdf:nil`.  A chain is followed backwards from its last cell to its head, which is the only cell that
may have one more arc, either out of it or into it.

* `Cell.read` looks at the arcs of one cell, `followChain` at one cell after the other.
* `Dataset.extractLists` gives the items of every chain by its head, and takes the arcs of the chains out if asked to
  and if all chains are well formed.
* `Gathered` is what comes of that: a chain that comes back to one of its cells is followed for ever, which is neither
  an answer nor an error.
-/

namespace RdfDataset

/-- What keeps a chain of cells from being a list. -/
inductive ListViolation
  | notConfinedToSingleGraph
  | nonListArcsOut
  | multipleFirst
  | multipleRest
  | subjectAndObject
  | coreferences
  | multipleIncomingRest
  | missingFirst
  deriving DecidableEq, Repr

/-- The wording of a violation. -/
def ListViolation.message : ListViolation → String
  | .notConfinedToSingleGraph => "not confined to single graph"
  | .nonListArcsOut => "has non-list arcs out"
  | .multipleFirst => "has multiple rdf:first arcs"
  | .multipleRest => "has multiple rdf:rest arcs"
  | .subjectAndObject => "can't be subject and object"
  | .coreferences => "can't have coreferences"
  | .multipleIncomingRest => "has incoming rdf:rest arcs"
  | .missingFirst => "has no list head"

/-- A cell and what is wrong with it. -/
structure ListFault where
  cell : Term
  violation : ListViolation
  deriving DecidableEq, Repr

/-- Why lists cannot be extracted. -/
inductive ListError
  | malformed (fault : ListFault)
  deriving DecidableEq, Repr

/-- The wording of an error. -/
def ListError.message : ListError → String
  | .malformed fault => s!"Malformed list at {fault.cell.id}: {fault.violation.message}"

/-- What comes of following chains: something, an error, or nothing at all. -/
inductive Gathered (α : Type)
  | ok (a : α)
  | error (e : ListError)
  /-- The call does not return, since a chain without a head comes to this cell again through `rdf:nil`. -/
  | endless (cell : Term)
  deriving DecidableEq, Repr

structure ExtractOptions where
  /-- Take the arcs of the lists out of the dataset. -/
  remove : Bool := false
  /-- Leave malformed lists aside and go on. -/
  ignoreErrors : Bool := false
  deriving DecidableEq, Repr

/-- The items of lists by their heads, and what was left aside. -/
structure Extraction where
  lists : List (Term × List Term) := []
  faults : List ListFault := []
  deriving DecidableEq, Repr

namespace Vocabulary.Rdf

def firstTerm : Term := .iri first
def restTerm : Term := .iri rest
def nilTerm : Term := .iri nil

end Vocabulary.Rdf

open Vocabulary.Rdf

variable [Arrangement]

/-- What is known of a cell: its list arcs, the cell before it, and whether it has an arc that only a head has. -/
structure Cell where
  item : Option Term := none
  hasRest : Bool := false
  arcs : List Quad := []
  previous : Option Term := none
  isHead : Bool := false
  deriving DecidableEq, Repr

namespace Cell

/-- Takes an arc out of the cell into account. -/
def addOutgoing (graph : Term) (isReferenced : Bool) (cell : Cell) (q : Quad) : Except ListViolation Cell :=
  if q.graph ≠ graph then .error .notConfinedToSingleGraph
  else if cell.isHead then .error .nonListArcsOut
  else if q.predicate = firstTerm then
    if cell.item.isSome then .error .multipleFirst
    else .ok { cell with item := some q.object, arcs := cell.arcs ++ [q] }
  else if q.predicate = restTerm then
    if cell.hasRest then .error .multipleRest
    else .ok { cell with hasRest := true, arcs := cell.arcs ++ [q] }
  else if isReferenced then .error .subjectAndObject
  else .ok { cell with isHead := true }

/-- Takes an arc into the cell into account. -/
def addIncoming (cell : Cell) (q : Quad) : Except ListViolation Cell :=
  if cell.isHead then .error .coreferences
  else if q.predicate = restTerm then
    if cell.previous.isSome then .error .multipleIncomingRest
    else .ok { cell with previous := some q.subject }
  else .ok { cell with isHead := true }

/-- Whether an arc belongs to the list structure. -/
def isListArc (q : Quad) : Bool :=
  q.predicate = firstTerm || q.predicate = restTerm

/-- Looks at all arcs of a cell, first those out of it, with the list arcs in front, and then those into it. -/
def read (d : Dataset) (graph : Term) (isHead : Bool) (node : Term) : Except ListViolation (Term × Cell) := do
  let incoming := d.matching { object := some node }
  let outgoing := d.matching { subject := some node }
  let sorted := outgoing.filter isListArc ++ outgoing.filter (!isListArc ·)
  let cell ← sorted.foldlM (addOutgoing graph (!incoming.isEmpty)) { isHead }
  let cell ← incoming.foldlM addIncoming cell
  match cell.item with
  | some item => return (item, cell)
  | none => throw .missingFirst

end Cell

/-- Where a chain leads: to its head, with its items and arcs, to a fault, or round and round. -/
inductive Chain
  | list (head : Term) (items : List Term) (arcs : List Quad)
  | malformed (fault : ListFault)
  | circular (cell : Term)
  deriving DecidableEq, Repr

/-- Follows a chain backwards through at most `cells` cells; `items` and `arcs` are those of the cells behind. -/
def followChain (d : Dataset) (graph : Term) :
    (cells : Nat) → (isHead : Bool) → (node : Term) → (items : List Term) → (arcs : List Quad) → Chain
  | 0, _, node, _, _ => .circular node
  | cells + 1, isHead, node, items, arcs =>
    match Cell.read d graph isHead node with
    | .error violation => .malformed ⟨node, violation⟩
    | .ok (item, cell) =>
      match cell.previous with
      | none => .list node (item :: items) (cell.arcs ++ arcs)
      | some previous => followChain d graph cells cell.isHead previous (item :: items) (cell.arcs ++ arcs)

namespace Dataset

/-- The chain of a last arc.  Every cell is a subject, so a chain that comes to more cells than there are subjects comes
to one of them again; when a fault ends it, this is the first cell that it comes to again. -/
def chainOf (d : Dataset) (last : Quad) : Chain :=
  followChain d last.graph ((d.subjects {}).length + 1) false last.subject [] []

/-- Follows the chains of some last arcs and gathers the lists, their arcs and the faults. -/
def gatherLists (d : Dataset) (ignoreErrors : Bool) :
    List Quad → Extraction × List Quad → Gathered (Extraction × List Quad)
  | [], found => .ok found
  | last :: others, (extraction, arcs) =>
    match d.chainOf last with
    | .list head items chainArcs =>
      d.gatherLists ignoreErrors others
        ({ extraction with lists := extraction.lists ++ [(head, items)] }, arcs ++ chainArcs)
    | .malformed fault =>
      if ignoreErrors then
        d.gatherLists ignoreErrors others ({ extraction with faults := extraction.faults ++ [fault] }, arcs)
      else .error (.malformed fault)
    | .circular cell => .endless cell

/-- Extracts all lists.  Nothing is taken out of the dataset when any chain is malformed, and before all chains have been
followed. -/
def extractLists (d : Dataset) (options : ExtractOptions) : Gathered Extraction × Dataset :=
  let lastArcs := d.matching { predicate := some restTerm, object := some nilTerm }
  match d.gatherLists options.ignoreErrors lastArcs ({}, []) with
  | .error e => (.error e, d)
  | .endless cell => (.endless cell, d)
  | .ok (extraction, arcs) =>
    let d := if options.remove && extraction.faults.isEmpty then (d.eraseMany arcs).2 else d
    (.ok extraction, d)

end Dataset

end RdfDataset
