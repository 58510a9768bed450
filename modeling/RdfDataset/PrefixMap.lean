import RdfDataset.Term.Basic
import RdfDataset.Text.Split

/-!
# Prefixes

A prefix map binds short prefixes to the beginnings of IRIs.

* `expand` turns `prefix:local` into the IRI that it stands for.
* `compact?` goes the other way and uses the longest beginning that fits.
-/

namespace RdfDataset

/-- Why a short name cannot be expanded. -/
inductive PrefixError
  | unknown (name : String)
  | noColon (text : String)
  | invalid (reason : TermError)
  deriving DecidableEq, Repr

/-- The wording of an error. -/
def PrefixError.message : PrefixError → String
  | .unknown name => s!"Unknown prefix: {name}"
  | .noColon text => s!"Invalid IRI: {text}"
  | .invalid reason => s!"Invalid IRI: {reason.message}"

/-- Prefixes and what they are bound to; no prefix occurs twice. -/
structure PrefixMap where
  bindings : List (String × String) := []
  deriving DecidableEq, Repr, Inhabited

namespace PrefixMap

/-- Binds a prefix, whatever it was bound to before. -/
def insert (m : PrefixMap) (name iri : String) : PrefixMap :=
  ⟨(name, iri) :: m.bindings.filter (·.1 != name)⟩

/-- What a prefix is bound to. -/
def find? (m : PrefixMap) (name : String) : Option String :=
  (m.bindings.find? (·.1 == name)).map (·.2)

/-- The prefixes of the vocabularies that are always at hand. -/
def standard : PrefixMap :=
  [("rdf", Vocabulary.Rdf.base), ("rdfs", Vocabulary.Rdfs.base), ("xsd", Vocabulary.Xsd.base),
    ("log", Vocabulary.Log.base), ("owl", Vocabulary.Owl.base)].foldl (fun m (name, iri) => m.insert name iri) {}

/-- What a prefix is bound to, or an error. -/
def get (m : PrefixMap) (name : String) : Except PrefixError String :=
  match m.find? name with
  | some iri => .ok iri
  | none => .error (.unknown name)

/-- The IRI of a short name, which ends its prefix at its first colon. -/
def expand (m : PrefixMap) (short : String) : Except PrefixError String :=
  match Text.splitFirst ':' short.toList with
  | none => .error (.noColon short)
  | some (name, rest) => do
    let iri ← m.get (String.ofList name)
    return iri ++ String.ofList rest

/-- The IRI of a short name as a term, if it is a valid one. -/
def expandTerm (m : PrefixMap) (short : String) : Except PrefixError Term := do
  let iri ← m.expand short
  (Term.iri? iri).mapError .invalid

/-- Of two bindings, the one to the longer IRI. -/
def longer (a b : String × String) : String × String :=
  if a.2.utf8ByteSize < b.2.utf8ByteSize then b else a

/-- The short name of an IRI, by the longest binding that it begins with. -/
def compact? (m : PrefixMap) (iri : String) : Option String :=
  match m.bindings.filter fun (_, base) => base.toList.isPrefixOf iri.toList with
  | [] => none
  | first :: others =>
    let (name, base) := others.foldl longer first
    some (name ++ ":" ++ String.ofList (iri.toList.drop base.length))

end PrefixMap

end RdfDataset
