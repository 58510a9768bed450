/-!
# Escape sequences

A backslash and what follows it stand for one character.

* `codePoint?` reads the number of a character in hexadecimal digits.
* `unescape` replaces all escape sequences of a text.  Those with a number are the same everywhere, the others are
  given as a function.
-/

namespace RdfDataset.Text

/-- The value of a hexadecimal digit. -/
def hexDigit? (c : Char) : Option Nat :=
  if c.isDigit then some (c.toNat - '0'.toNat)
  else if 'a' ≤ c ∧ c ≤ 'f' then some (c.toNat - 'a'.toNat + 10)
  else if 'A' ≤ c ∧ c ≤ 'F' then some (c.toNat - 'A'.toNat + 10)
  else none

/-- The character with a number in hexadecimal digits, unless no character has this number. -/
def codePoint? (digits : List Char) : Option Char := do
  let n ← digits.foldlM (fun n d => (hexDigit? d).map (16 * n + ·)) 0
  if n.isValidChar then some (Char.ofNat n) else none

/-- The text with each escape sequence replaced by its character: `\u` and four digits, `\U` and eight digits, or a
backslash and a character that `short` gives a meaning. -/
def unescape (short : Char → Option Char) : List Char → Option (List Char)
  | [] => some []
  | '\\' :: 'u' :: a :: b :: c :: d :: cs => do
    return (← codePoint? [a, b, c, d]) :: (← unescape short cs)
  | '\\' :: 'U' :: a :: b :: c :: d :: e :: f :: g :: h :: cs => do
    return (← codePoint? [a, b, c, d, e, f, g, h]) :: (← unescape short cs)
  | '\\' :: c :: cs => do
    return (← short c) :: (← unescape short cs)
  | c :: cs => if c = '\\' then none else (unescape short cs).map (c :: ·)

/-- The short escape sequences of strings. -/
def stringEscape : Char → Option Char
  | 't' => some '\t'
  | 'b' => some '\x08'
  | 'n' => some '\n'
  | 'r' => some '\r'
  | 'f' => some '\x0c'
  | '"' => some '"'
  | '\'' => some '\''
  | '\\' => some '\\'
  | _ => none

end RdfDataset.Text
