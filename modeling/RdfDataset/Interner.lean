import RdfDataset.Term.Id
import Std.Data.HashMap

/-!
# Interning

Terms are numbered `1`, `2`, … in the order in which they are first seen, and a number names its term for ever.

* `intern` gives the number of a term, a new one if need be; the components of a quoted quad are numbered before it.
* `find?` and `resolve?` look up numbers and terms and change nothing.

Here numbers never run out.  A table that has 32 bits for a number can name `2 ^ 32 - 1` terms and stops for good, with
the message that its id space is exhausted, when it is to number one more; up to that term there is no difference.
-/

namespace RdfDataset

/-- The numbers of terms, by their ids, and the terms in the order of their numbers. -/
structure Interner where
  numbers : Std.HashMap String Nat := ∅
  terms : Array Term := #[]
  deriving Inhabited

namespace Interner

/-- How many terms have numbers. -/
def size (i : Interner) : Nat :=
  i.terms.size

def isEmpty (i : Interner) : Bool :=
  i.terms.isEmpty

/-- The number of the term with a given id. -/
def findId? (i : Interner) (id : String) : Option Nat :=
  i.numbers[id]?

/-- The number of a term. -/
def find? (i : Interner) (t : Term) : Option Nat :=
  i.findId? t.id

def containsId (i : Interner) (id : String) : Bool :=
  i.numbers.contains id

/-- The term of a number. -/
def resolve? (i : Interner) : Nat → Option Term
  | 0 => none
  | n + 1 => i.terms[n]?

/-- Gives the next number to a term. -/
def push (i : Interner) (t : Term) : Nat × Interner :=
  (i.size + 1, { numbers := i.numbers.insert t.id (i.size + 1), terms := i.terms.push t })

/-- The number of a term, and the table in which it and its components have numbers. -/
def intern (i : Interner) (t : Term) : Nat × Interner :=
  match i.find? t with
  | some n => (n, i)
  | none =>
    match t with
    | .quoted s p o g =>
      let (_, i) := i.intern s
      let (_, i) := i.intern p
      let (_, i) := i.intern o
      let (_, i) := i.intern g
      i.push (.quoted s p o g)
    | t => i.push t

end Interner

end RdfDataset
