import RdfDataset.Table
import RdfDataset.Triple

/-!
# The index of a graph

A graph keeps its triples three times, as nested trees with the subject, the predicate or the object at the root.  A
lookup descends the tree in which the positions that it knows come first.

* `IndexOrder.select` chooses the tree, `IndexOrder.keys` and `IndexOrder.triple` convert between positions and
  levels.
* `insert` and `erase` change the three trees together and say whether the triple was new or present.
* `matching` lists the triples of a pattern and `count` counts them without listing.
* `subjects`, `predicates` and `objects` list what occurs in one position.
* Erasing without pruning leaves empty levels behind, which no lookup shows.

The levels of the trees are tables, so what is listed comes in an order that depends on all earlier changes.
-/

namespace RdfDataset

/-- Which position stands at the root of a tree. -/
inductive IndexOrder
  | subjects
  | predicates
  | objects
  deriving DecidableEq, Repr

namespace IndexOrder

/-- The tree for a lookup, by the positions that it knows. -/
def select (subject predicate object : Bool) : IndexOrder :=
  if subject then
    if object then .objects else .subjects
  else if predicate then .predicates
  else .objects

/-- The keys of the three levels. -/
def keys {α : Type} (order : IndexOrder) (t : Triple α) : α × α × α :=
  match order with
  | .subjects => (t.subject, t.predicate, t.object)
  | .predicates => (t.predicate, t.object, t.subject)
  | .objects => (t.object, t.subject, t.predicate)

/-- The triple of the keys of the three levels. -/
def triple {α : Type} (order : IndexOrder) (a b c : α) : Triple α :=
  match order with
  | .subjects => ⟨a, b, c⟩
  | .predicates => ⟨c, a, b⟩
  | .objects => ⟨b, c, a⟩

end IndexOrder

variable [Arrangement]

/-- The last level of a tree: a table of keys alone. -/
abbrev Leaf := Table Unit

/-- The second level of a tree. -/
abbrev Branch := Table Leaf

/-- Triples of numbers by the keys of three levels. -/
abbrev Tree := Table Branch

namespace Tree

/-- The branch of a first key, which is empty if there is none. -/
def branch (t : Tree) (a : Nat) : Branch :=
  t[a]?.getD ∅

/-- The leaf of two keys, which is empty if there is none. -/
def leaf (t : Tree) (a b : Nat) : Leaf :=
  (t.branch a)[b]?.getD ∅

def contains (t : Tree) (a b c : Nat) : Bool :=
  (t.leaf a b).contains c

/-- Adds a triple, with the levels that it needs. -/
def insert (t : Tree) (a b c : Nat) : Tree :=
  Table.insert t a ((t.branch a).insert b ((t.leaf a b).insert c ()))

/-- Takes a triple out.  Pruning takes out the leaf and the branch too when nothing else is in them. -/
def erase (t : Tree) (prune : Bool) (a b c : Nat) : Tree :=
  if t.contains a b c then
    let leaf := (t.leaf a b).erase c
    if prune && leaf.isEmpty then
      let branch := (t.branch a).erase b
      if branch.isEmpty then Table.erase t a else Table.insert t a branch
    else Table.insert t a ((t.branch a).insert b leaf)
  else t

/-- The second keys under a first one that have triples. -/
def branchKeys (t : Tree) (a : Nat) : List Nat :=
  ((t.branch a).toList.filter fun (_, leaf) => !leaf.isEmpty).map (·.1)

/-- The first keys that have triples with a given second key. -/
def keysThrough (t : Tree) (b : Nat) : List Nat :=
  (t.toList.filter fun (a, _) => !(t.leaf a b).isEmpty).map (·.1)

/-- The first keys that have triples. -/
def rootKeys (t : Tree) : List Nat :=
  (t.toList.filter fun (_, branch) => branch.toList.any fun (_, leaf) => !leaf.isEmpty).map (·.1)

end Tree

/-- The sum of some counts. -/
def total (counts : List Nat) : Nat :=
  counts.foldr (· + ·) 0

/-- One level of a lookup: the entry of a known key, or all entries. -/
def entriesAt {β : Type} (level : Table β) : Option Nat → List (Nat × β)
  | some key => (level[key]?).toList.map (key, ·)
  | none => level.toList

/-- The last level of a lookup. -/
def membersAt (leaf : Leaf) : Option Nat → List Nat
  | some key => if leaf.contains key then [key] else []
  | none => leaf.keys

/-- The triples of a graph, in three trees. -/
structure GraphIndex where
  bySubject : Tree := ∅
  byPredicate : Tree := ∅
  byObject : Tree := ∅
  deriving Inhabited

namespace GraphIndex

/-- The tree of an order. -/
def tree (g : GraphIndex) : IndexOrder → Tree
  | .subjects => g.bySubject
  | .predicates => g.byPredicate
  | .objects => g.byObject

def contains (g : GraphIndex) (t : Triple Nat) : Bool :=
  g.bySubject.contains t.subject t.predicate t.object

/-- Adds a triple and says whether it was new. -/
def insert (g : GraphIndex) (t : Triple Nat) : Bool × GraphIndex :=
  if g.contains t then (false, g)
  else
    (true,
      { bySubject := g.bySubject.insert t.subject t.predicate t.object
        byPredicate := g.byPredicate.insert t.predicate t.object t.subject
        byObject := g.byObject.insert t.object t.subject t.predicate })

/-- Takes a triple out and says whether it was there. -/
def erase (g : GraphIndex) (prune : Bool) (t : Triple Nat) : Bool × GraphIndex :=
  if g.contains t then
    (true,
      { bySubject := g.bySubject.erase prune t.subject t.predicate t.object
        byPredicate := g.byPredicate.erase prune t.predicate t.object t.subject
        byObject := g.byObject.erase prune t.object t.subject t.predicate })
  else (false, g)

/-- The order of the tree in which a pattern is looked up. -/
def orderFor (pattern : Triple (Option Nat)) : IndexOrder :=
  .select pattern.subject.isSome pattern.predicate.isSome pattern.object.isSome

/-- The triples that agree with a pattern in the positions that it knows. -/
def matching (g : GraphIndex) (pattern : Triple (Option Nat)) : List (Triple Nat) :=
  let order := orderFor pattern
  let (first, second, third) := order.keys pattern
  (entriesAt (g.tree order) first).flatMap fun (a, branch) =>
    (entriesAt branch second).flatMap fun (b, leaf) => (membersAt leaf third).map fun c => order.triple a b c

/-- How many triples agree with a pattern. -/
def count (g : GraphIndex) (pattern : Triple (Option Nat)) : Nat :=
  let order := orderFor pattern
  let (first, second, third) := order.keys pattern
  total <| (entriesAt (g.tree order) first).map fun (_, branch) =>
    total <| (entriesAt branch second).map fun (_, leaf) =>
      match third with
      | some key => if leaf.contains key then 1 else 0
      | none => leaf.size

/-- The number of triples. -/
def size (g : GraphIndex) : Nat :=
  total <| g.bySubject.toList.map fun (_, branch) => total <| branch.toList.map fun (_, leaf) => leaf.size

def isEmpty (g : GraphIndex) : Bool :=
  g.bySubject.toList.all fun (_, branch) => branch.toList.all fun (_, leaf) => leaf.isEmpty

/-- All triples. -/
def toList (g : GraphIndex) : List (Triple Nat) :=
  g.matching ⟨none, none, none⟩

/-- The subjects of triples with a given predicate and object. -/
def subjects (g : GraphIndex) : Option Nat → Option Nat → List Nat
  | some p, some o => (g.byPredicate.leaf p o).keys
  | some p, none => g.bySubject.keysThrough p
  | none, some o => g.byObject.branchKeys o
  | none, none => g.bySubject.rootKeys

/-- The predicates of triples with a given subject and object. -/
def predicates (g : GraphIndex) : Option Nat → Option Nat → List Nat
  | some s, some o => (g.byObject.leaf o s).keys
  | some s, none => g.bySubject.branchKeys s
  | none, some o => g.byPredicate.keysThrough o
  | none, none => g.byPredicate.rootKeys

/-- The objects of triples with a given subject and predicate. -/
def objects (g : GraphIndex) : Option Nat → Option Nat → List Nat
  | some s, some p => (g.bySubject.leaf s p).keys
  | some s, none => g.byObject.keysThrough s
  | none, some p => g.byPredicate.branchKeys p
  | none, none => g.byObject.rootKeys

end GraphIndex

end RdfDataset
