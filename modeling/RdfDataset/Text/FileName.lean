import RdfDataset.Text.Split

/-!
# File names in paths

* `fileName?` is the last part of a path, slashes and dots at its end apart.
* `extension?` is what stands behind the last dot of the file name, unless the name begins with that dot.
-/

namespace RdfDataset.Text

/-- The name of the file that a path leads to.  A path that ends by going up leads to no file of known name. -/
def fileName? (path : List Char) : Option (List Char) :=
  match ((splitOn (· == '/') path).filter fun part => part ≠ [] && part ≠ ['.']).getLast? with
  | none => none
  | some name => if name = ['.', '.'] then none else some name

/-- The extension of the file name of a path, without the dot. -/
def extension? (path : List Char) : Option (List Char) :=
  match (fileName? path).bind (splitLast '.') with
  | some (_ :: _, ext) => some ext
  | _ => none

end RdfDataset.Text
