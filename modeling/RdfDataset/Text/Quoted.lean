import RdfDataset.Text.Printable

/-!
# Quoted text

Text shown between quotation marks inside a message.  Quotation marks, backslashes, line breaks, tabs and the null
character have short escapes; every other character that does not stand for itself is written by its code point
in hexadecimal (`quote`).
-/

namespace RdfDataset.Text

/-- The digits of a number in base sixteen, in lower case, without leading zeros. -/
def hexDigits (n : Nat) : List Char :=
  Nat.toDigits 16 n

/-- The form of one character between quotation marks. -/
def escapeShown (c : Char) : List Char :=
  match c with
  | '\x00' => ['\\', '0']
  | '\t' => ['\\', 't']
  | '\r' => ['\\', 'r']
  | '\n' => ['\\', 'n']
  | '\\' => ['\\', '\\']
  | '"' => ['\\', '"']
  | c => if isShown c then [c] else ['\\', 'u', '\x7b'] ++ hexDigits c.toNat ++ ['\x7d']

/-- A text between quotation marks, with escapes. -/
def quote (s : String) : String :=
  String.ofList ('"' :: s.toList.flatMap escapeShown ++ ['"'])

end RdfDataset.Text
