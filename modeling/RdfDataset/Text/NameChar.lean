/-!
# Characters of names

The character classes that blank node labels, variable names and prefixed names are made of.

* `isNameBase`: letters, of any script.
* `isNameStart`: letters and `_`.
* `isNameChar`: letters, digits, `_`, `-` and the combining marks of the Latin block.
-/

namespace RdfDataset.Text

/-- A letter that can begin the prefix of a prefixed name. -/
def isNameBase (c : Char) : Bool :=
  let n := c.toNat
  c.isAlpha || (0xC0 ≤ n && n ≤ 0xD6) || (0xD8 ≤ n && n ≤ 0xF6) || (0xF8 ≤ n && n ≤ 0x2FF)
    || (0x370 ≤ n && n ≤ 0x37D) || (0x37F ≤ n && n ≤ 0x1FFF) || (0x200C ≤ n && n ≤ 0x200D)
    || (0x2070 ≤ n && n ≤ 0x218F) || (0x2C00 ≤ n && n ≤ 0x2FEF) || (0x3001 ≤ n && n ≤ 0xD7FF)
    || (0xF900 ≤ n && n ≤ 0xFDCF) || (0xFDF0 ≤ n && n ≤ 0xFFFD) || (0x10000 ≤ n && n ≤ 0xEFFFF)

/-- A letter or an underscore. -/
def isNameStart (c : Char) : Bool :=
  isNameBase c || c == '_'

/-- A mark that joins a name after its first character: the middle dot, combining marks and tie bars. -/
def isNameMark (c : Char) : Bool :=
  let n := c.toNat
  n == 0xB7 || (0x300 ≤ n && n ≤ 0x36F) || (0x203F ≤ n && n ≤ 0x2040)

/-- A character that can stand inside a name. -/
def isNameChar (c : Char) : Bool :=
  isNameStart c || c.isDigit || c == '-' || isNameMark c

/-- A blank node label begins with a letter, a digit, `_` or `:`, goes on with name characters, `:` and `.`, and
does not end with a `.`. -/
def isBlankLabel : List Char → Bool
  | [] => false
  | c :: cs =>
    (isNameStart c || c.isDigit || c == ':') && cs.all (fun d => isNameChar d || d == ':' || d == '.')
      && (c :: cs).getLast? != some '.'

/-- A variable name begins with a letter, a digit, `_` or `:` and goes on with letters, digits, `_` and marks. -/
def isVariableName : List Char → Bool
  | [] => false
  | c :: cs =>
    (isNameStart c || c.isDigit || c == ':') && cs.all (fun d => isNameStart d || d.isDigit || isNameMark d)

end RdfDataset.Text
