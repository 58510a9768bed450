/-!
# Triples

Three values in the positions of subject, predicate and object.  They are terms in a pattern of a rule, numbers in
an index, optional numbers in a lookup and slots in a compiled rule.
-/

namespace RdfDataset

@[ext]
structure Triple (α : Type) where
  subject : α
  predicate : α
  object : α
  deriving DecidableEq, Repr, Inhabited

namespace Triple

variable {α β : Type}

def map (f : α → β) (t : Triple α) : Triple β :=
  ⟨f t.subject, f t.predicate, f t.object⟩

/-- The values in order of their positions. -/
def toList (t : Triple α) : List α :=
  [t.subject, t.predicate, t.object]

/-- The triple of the values that are there, if all are. -/
def sequence (t : Triple (Option α)) : Option (Triple α) := do
  return ⟨← t.subject, ← t.predicate, ← t.object⟩

end Triple

end RdfDataset
