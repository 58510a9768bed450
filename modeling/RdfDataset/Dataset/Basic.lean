import RdfDataset.GraphIndex
import RdfDataset.Interner
import RdfDataset.Settings.Basic

/-!
# Datasets

A dataset numbers its terms and keeps one index for every graph.

* `insert` and `erase` change one quad and say whether anything changed; `insertMany` and `eraseMany` count.
* `size` counts all quads and remembers the count until the next change.
* `lookUp` turns a pattern of terms into one of numbers; a term without a number matches nothing.
-/

namespace RdfDataset

/-- The quads to be found: those that have the given terms in the given positions. -/
structure Pattern where
  subject : Option Term := none
  predicate : Option Term := none
  object : Option Term := none
  graph : Option Term := none
  deriving DecidableEq, Repr, Inhabited

/-- A pattern of numbers. -/
structure IdPattern where
  triple : Triple (Option Nat)
  graph : Option Nat
  deriving DecidableEq, Repr

variable [Arrangement]

/-- Numbered terms and an index for every graph, in a table of their own. -/
structure Dataset where
  settings : Settings := {}
  terms : Interner := {}
  graphs : Table GraphIndex := ∅
  /-- The number of quads, unless they have changed since they were counted. -/
  knownSize : Option Nat := some 0
  /-- The number that the next blank node is labelled with.  It never exceeds the number of terms, so that it fits into
  64 bits as long as the numbers of the terms fit into 32. -/
  nextBlank : Nat := 0
  deriving Inhabited

namespace Dataset

/-- An empty dataset with given settings, if they are valid. -/
def withSettings (settings : Settings) : Except SettingsError Dataset := do
  settings.check
  return { settings }

/-- The index of a graph, which is empty if the dataset has none. -/
def index (d : Dataset) (graph : Nat) : GraphIndex :=
  d.graphs[graph]?.getD {}

/-- Adds a quad and says whether it was new. -/
def insert (d : Dataset) (q : Quad) : Bool × Dataset :=
  let (graph, terms) := d.terms.intern q.graph
  let (s, terms) := terms.intern q.subject
  let (p, terms) := terms.intern q.predicate
  let (o, terms) := terms.intern q.object
  let (isNew, index) := (d.index graph).insert ⟨s, p, o⟩
  (isNew,
    { d with
      terms
      graphs := d.graphs.insert graph index
      knownSize := if isNew then none else d.knownSize })

/-- Adds quads in order and counts the new ones. -/
def insertMany (d : Dataset) (quads : List Quad) : Nat × Dataset :=
  quads.foldl (fun (count, d) q =>
    let (isNew, d) := d.insert q
    (if isNew then count + 1 else count, d)) (0, d)

/-- A dataset of some quads, with the default settings. -/
def ofList (quads : List Quad) : Dataset :=
  (insertMany {} quads).2

/-- Takes a quad out, given by numbers, and says whether it was there. -/
def eraseIds (d : Dataset) (graph : Nat) (t : Triple Nat) : Bool × Dataset :=
  match d.graphs[graph]? with
  | none => (false, d)
  | some index =>
    let prune := d.settings.pruneEmptyLevels
    let (wasThere, index) := index.erase prune t
    if wasThere then
      (true,
        { d with
          graphs := if prune && index.isEmpty then d.graphs.erase graph else d.graphs.insert graph index
          knownSize := none })
    else (false, d)

/-- The numbers of a quad, if all its terms have one. -/
def quadIds? (d : Dataset) (q : Quad) : Option (Nat × Triple Nat) := do
  let graph ← d.terms.find? q.graph
  let s ← d.terms.find? q.subject
  let p ← d.terms.find? q.predicate
  let o ← d.terms.find? q.object
  return (graph, ⟨s, p, o⟩)

/-- Takes a quad out and says whether it was there. -/
def erase (d : Dataset) (q : Quad) : Bool × Dataset :=
  match d.quadIds? q with
  | some (graph, t) => d.eraseIds graph t
  | none => (false, d)

/-- Takes quads out in order and counts those that were there. -/
def eraseMany (d : Dataset) (quads : List Quad) : Nat × Dataset :=
  quads.foldl (fun (count, d) q =>
    let (wasThere, d) := d.erase q
    (if wasThere then count + 1 else count, d)) (0, d)

/-- The number of all quads. -/
def countQuads (d : Dataset) : Nat :=
  total <| d.graphs.toList.map fun (_, index) => index.size

/-- The number of all quads, counted only if it is not known. -/
def size (d : Dataset) : Nat × Dataset :=
  match d.knownSize with
  | some n => (n, d)
  | none => (d.countQuads, { d with knownSize := some d.countQuads })

def isEmpty (d : Dataset) : Bool × Dataset :=
  let (n, d) := d.size
  (n == 0, d)

/-- The number of a term of a pattern; a position that is left open stays open. -/
def lookUpTerm (d : Dataset) : Option Term → Option (Option Nat)
  | none => some none
  | some t => (d.terms.find? t).map some

/-- The numbers of the terms of a pattern, if all of them have one. -/
def lookUp (d : Dataset) (pattern : Pattern) : Option IdPattern := do
  let s ← d.lookUpTerm pattern.subject
  let p ← d.lookUpTerm pattern.predicate
  let o ← d.lookUpTerm pattern.object
  let graph ← d.lookUpTerm pattern.graph
  return ⟨⟨s, p, o⟩, graph⟩

/-- The graphs that a pattern is looked up in, with their indices. -/
def indices (d : Dataset) (graph : Option Nat) : List (Nat × GraphIndex) :=
  entriesAt d.graphs graph

/-- The numbers of the quads of a pattern. -/
def matchingIds (d : Dataset) (pattern : IdPattern) : List (Nat × Triple Nat) :=
  (d.indices pattern.graph).flatMap fun (graph, index) => (index.matching pattern.triple).map (graph, ·)

/-- Takes out all quads of a pattern and counts them. -/
def eraseMatching (d : Dataset) (pattern : Pattern) : Nat × Dataset :=
  match d.lookUp pattern with
  | none => (0, d)
  | some ids =>
    (d.matchingIds ids).foldl (fun (count, d) (graph, t) =>
      let (wasThere, d) := d.eraseIds graph t
      (if wasThere then count + 1 else count, d)) (0, d)

/-- Takes out all quads of a graph and counts them. -/
def eraseGraph (d : Dataset) (graph : Term) : Nat × Dataset :=
  d.eraseMatching { graph := some graph }

end Dataset

end RdfDataset
