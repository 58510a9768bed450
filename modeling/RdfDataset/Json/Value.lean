import RdfDataset.Text.Escape

/-!
# JSON

* `Value` is a JSON value whose strings still have their escape sequences; `decodeString` replaces these.
* `read` reads a text that consists of one value.
-/

namespace RdfDataset.Json

/-- A JSON value.  A string and a key are what stands between the quotation marks. -/
inductive Value
  | null
  | bool (b : Bool)
  | number
  | string (raw : List Char)
  | array (items : List Value)
  | object (fields : List (List Char × Value))
  deriving Repr, Inhabited

def isSpace (c : Char) : Bool :=
  c == ' ' || c == '\n' || c == '\t' || c == '\r'

def dropSpace (cs : List Char) : List Char :=
  cs.dropWhile isSpace

/-! ### Strings -/

/-- The character behind the backslash of a short escape sequence, and the one it stands for. -/
def shortEscape? : Char → Option Char
  | '"' => some '"'
  | '\\' => some '\\'
  | '/' => some '/'
  | 'b' => some '\x08'
  | 'f' => some '\x0c'
  | 'n' => some '\n'
  | 'r' => some '\r'
  | 't' => some '\t'
  | _ => none

def isHexDigit (c : Char) : Bool :=
  (Text.hexDigit? c).isSome

/-- What stands before the closing quotation mark of a string, and what follows it.  Control characters and unknown
escape sequences are refused. -/
def splitString : List Char → Option (List Char × List Char)
  | [] => none
  | '"' :: cs => some ([], cs)
  | '\\' :: 'u' :: a :: b :: c :: d :: cs =>
    if [a, b, c, d].all isHexDigit then
      (splitString cs).map fun (raw, rest) => ('\\' :: 'u' :: a :: b :: c :: d :: raw, rest)
    else none
  | '\\' :: c :: cs =>
    if (shortEscape? c).isSome then (splitString cs).map fun (raw, rest) => ('\\' :: c :: raw, rest) else none
  | c :: cs =>
    if c.toNat < 0x20 ∨ c = '\\' then none else (splitString cs).map fun (raw, rest) => (c :: raw, rest)

/-- The numbers that the characters and escape sequences of a string stand for.  A character beyond 16 bits that is
written with escape sequences is still in two parts. -/
def stringUnits : List Char → Option (List Nat)
  | [] => some []
  | '\\' :: 'u' :: a :: b :: c :: d :: cs => do
    let n ← [a, b, c, d].foldlM (fun n d => (Text.hexDigit? d).map (16 * n + ·)) 0
    return n :: (← stringUnits cs)
  | '\\' :: c :: cs => do
    return (← shortEscape? c).toNat :: (← stringUnits cs)
  | c :: cs => (stringUnits cs).map (c.toNat :: ·)

def isHighHalf (n : Nat) : Bool :=
  0xD800 ≤ n && n < 0xDC00

def isLowHalf (n : Nat) : Bool :=
  0xDC00 ≤ n && n < 0xE000

/-- Joins the parts of characters; `high` is the first part of a character whose second part has to come next. -/
def joinUnits : (high : Option Nat) → List Nat → Option (List Char)
  | none, [] => some []
  | some _, [] => none
  | none, n :: ns =>
    if isHighHalf n then joinUnits (some n) ns
    else if isLowHalf n then none
    else (joinUnits none ns).map (Char.ofNat n :: ·)
  | some high, n :: ns =>
    if isLowHalf n then
      (joinUnits none ns).map (Char.ofNat (0x10000 + 0x400 * (high - 0xD800) + (n - 0xDC00)) :: ·)
    else none

/-- The text that a string stands for. -/
def decodeString (raw : List Char) : Option String := do
  return String.ofList (← joinUnits none (← stringUnits raw))

/-! ### Values -/

/-- At least one digit. -/
def dropDigits : List Char → Option (List Char)
  | c :: cs => if c.isDigit then some (cs.dropWhile Char.isDigit) else none
  | [] => none

/-- What follows the integer part of a number, which has no superfluous zeros. -/
def dropInteger : List Char → Option (List Char)
  | '0' :: c :: cs => if c.isDigit then none else some (c :: cs)
  | cs => dropDigits cs

/-- What follows the fractional part of a number, if it has one. -/
def dropFraction : List Char → Option (List Char)
  | '.' :: cs => dropDigits cs
  | cs => some cs

/-- What follows the exponent of a number, if it has one. -/
def dropExponent : List Char → Option (List Char)
  | [] => some []
  | c :: cs =>
    if c == 'e' || c == 'E' then
      match cs with
      | '+' :: cs | '-' :: cs => dropDigits cs
      | cs => dropDigits cs
    else some (c :: cs)

/-- What follows a number. -/
def dropNumber (cs : List Char) : Option (List Char) := do
  let cs ← match cs with
    | '-' :: cs => dropInteger cs
    | cs => dropInteger cs
  dropExponent (← dropFraction cs)

mutual

/-- Reads a value; the recursion is bounded by a number that the length of the text never exceeds. -/
def readValue : Nat → List Char → Option (Value × List Char)
  | 0, _ => none
  | bound + 1, cs =>
    match dropSpace cs with
    | 'n' :: 'u' :: 'l' :: 'l' :: rest => some (.null, rest)
    | 't' :: 'r' :: 'u' :: 'e' :: rest => some (.bool true, rest)
    | 'f' :: 'a' :: 'l' :: 's' :: 'e' :: rest => some (.bool false, rest)
    | '"' :: cs => (splitString cs).map fun (raw, rest) => (.string raw, rest)
    | '[' :: cs =>
      match dropSpace cs with
      | ']' :: rest => some (.array [], rest)
      | cs => (readItems bound cs).map fun (items, rest) => (.array items, rest)
    | '\x7b' :: cs =>
      match dropSpace cs with
      | '\x7d' :: rest => some (.object [], rest)
      | cs => (readFields bound cs).map fun (fields, rest) => (.object fields, rest)
    | cs => (dropNumber cs).map fun rest => (.number, rest)

/-- Reads the items of an array, of which there is at least one, and the closing bracket. -/
def readItems : Nat → List Char → Option (List Value × List Char)
  | 0, _ => none
  | bound + 1, cs => do
    let (item, cs) ← readValue bound cs
    match dropSpace cs with
    | ',' :: cs =>
      let (items, rest) ← readItems bound cs
      return (item :: items, rest)
    | ']' :: rest => return ([item], rest)
    | _ => none

/-- Reads the fields of an object, of which there is at least one, and the closing brace. -/
def readFields : Nat → List Char → Option (List (List Char × Value) × List Char)
  | 0, _ => none
  | bound + 1, cs => do
    match dropSpace cs with
    | '"' :: cs =>
      let (key, cs) ← splitString cs
      match dropSpace cs with
      | ':' :: cs =>
        let (value, cs) ← readValue bound cs
        match dropSpace cs with
        | ',' :: cs =>
          let (fields, rest) ← readFields bound cs
          return ((key, value) :: fields, rest)
        | '\x7d' :: rest => return ([(key, value)], rest)
        | _ => none
      | _ => none
    | _ => none

end

/-- Reads a text that consists of one value and space around it. -/
def read (text : List Char) : Option Value := do
  let (value, rest) ← readValue (2 * text.length + 2) text
  if (dropSpace rest).isEmpty then some value else none

end RdfDataset.Json
