import RdfDataset.Iri.Basic
import RdfDataset.Text.Split

/-!
# Resolving references

A reference without a scheme takes the parts that it lacks from a base IRI.

* `parent` and `mergePath` work out a path relative to a directory: `.` stays, `..` goes up.
* `Reference.resolve` gives the absolute reference; a path without an authority may not begin with two slashes.
-/

namespace RdfDataset.Iri

/-- The part of a path up to its last slash.  With an authority before it a path has at least that slash. -/
def directory (hasAuthority : Bool) (path : List Char) : List Char :=
  match Text.splitLast '/' path with
  | some (before, _) => before ++ ['/']
  | none => if hasAuthority then ['/'] else []

/-- The directory one level above a directory. -/
def parent (hasAuthority : Bool) (dir : List Char) : List Char :=
  directory hasAuthority dir.dropLast

/-- Follows the segments of a path, beginning in a directory. -/
def followSegments (hasAuthority : Bool) (dir : List Char) : List (List Char) → List Char
  | [] => dir
  | segment :: segments =>
    let next :=
      if segment = ['.'] then dir
      else if segment = ['.', '.'] then parent hasAuthority dir
      else if segments.isEmpty then dir ++ segment
      else dir ++ segment ++ ['/']
    followSegments hasAuthority next segments

/-- The path that a relative path means in a directory. -/
def mergePath (hasAuthority : Bool) (dir path : List Char) : List Char :=
  followSegments hasAuthority dir (Text.splitOn (· == '/') path)

/-- Resolves a reference against an absolute base. -/
def Reference.resolve (base r : Reference) : Except Error Reference :=
  if r.scheme.isSome then .ok r
  else if r.authority.isSome then .ok { r with scheme := base.scheme }
  else
    let hasAuthority := base.authority.isSome
    let r' : Reference :=
      match r.path with
      | [] => { base with query := r.query <|> base.query, fragment := r.fragment }
      | '/' :: path => { base with path := mergePath hasAuthority ['/'] path, query := r.query, fragment := r.fragment }
      | path =>
        let dir := directory hasAuthority base.path
        { base with path := mergePath hasAuthority dir path, query := r.query, fragment := r.fragment }
    match hasAuthority, r'.path with
    | false, '/' :: '/' :: _ => .error .pathBegin
    | _, _ => .ok r'

/-- Reads a reference as an absolute one: relative to the base if there is one, and with a scheme otherwise. -/
def readWithBase (base : Option Reference) (cs : List Char) : Except Error Reference :=
  match base with
  | none => readAbsolute cs
  | some base => do base.resolve (← Reference.read cs)

end RdfDataset.Iri
