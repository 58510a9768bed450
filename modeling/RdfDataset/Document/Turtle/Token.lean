import RdfDataset.Document.Token
import RdfDataset.PrefixMap

/-!
# Tokens of Turtle and TriG

The tokens that only these two formats have.

* `dropSpace` drops white space and comments.
* `readPrefixName` reads a prefix up to its colon, `readPrefixed` a whole prefixed name, which it expands.
* `readNumber` and `readBoolean` read literals without quotation marks, `readQuotation` reads a string in any of the
  four ways to quote it.
* `readDirective` reads the keyword that a directive begins with.
-/

namespace RdfDataset.Document.Turtle

def isSpace (c : Char) : Bool :=
  c == ' ' || c == '\t' || isLineEnd c

/-- Drops characters of the class `skipped` and comments, which begin with `#` and end with the line. -/
def dropWithComments (skipped : Char → Bool) (inComment : Bool) : List Char → List Char
  | [] => []
  | c :: cs =>
    if inComment then dropWithComments skipped (!isLineEnd c) cs
    else if c = '#' then dropWithComments skipped true cs
    else if skipped c then dropWithComments skipped false cs
    else c :: cs

/-- Drops white space and comments. -/
def dropSpace (cs : List Char) : List Char :=
  dropWithComments isSpace false cs

/-- Drops semicolons together with the space between and behind them. -/
def dropSemicolons (cs : List Char) : List Char :=
  dropWithComments (fun c => isSpace c || c == ';') false cs

/-- What follows an empty pair of square brackets, if the text begins with one. -/
def afterEmptyBrackets? : List Char → Option (List Char)
  | '[' :: cs =>
    match cs.dropWhile isSpace with
    | ']' :: rest => some rest
    | _ => none
  | _ => none

/-! ### Names -/

/-- A prefix and the colon behind it. -/
def readPrefixName : List Char → Option (String × List Char)
  | [] => none
  | ':' :: cs => some ("", cs)
  | c :: cs =>
    if Text.isNameBase c then
      match spanName cs with
      | (name, ':' :: rest) => some (String.ofList (c :: name), rest)
      | _ => none
    else none

/-- A punctuation mark that can stand in a name behind a backslash. -/
def isEscapable (c : Char) : Bool :=
  "_~.-!$&'()*+,;=/?#@%".toList.contains c

/-- Whether a full stop belongs to the local part of a name, given what follows it. -/
def continuesLocal : List Char → Bool
  | [] => false
  | c :: _ => Text.isNameChar c || c == '.' || c == ':' || c == '%' || c == '\\' || 0x80 ≤ c.toNat

/-- The characters of the local part of a name.  A percent sign stands before two hexadecimal digits, a backslash
before a punctuation mark. -/
def spanLocal : List Char → Option (List Char × List Char)
  | [] => some ([], [])
  | '%' :: h :: l :: cs =>
    if Iri.isHexDigit h && Iri.isHexDigit l then
      (spanLocal cs).map fun (name, rest) => ('%' :: h :: l :: name, rest)
    else none
  | '\\' :: c :: cs =>
    if isEscapable c then (spanLocal cs).map fun (name, rest) => (c :: name, rest) else none
  | c :: cs =>
    if c = '%' ∨ c = '\\' then none
    else if Text.isNameChar c || c == ':' || (c == '.' && continuesLocal cs) then
      (spanLocal cs).map fun (name, rest) => (c :: name, rest)
    else some ([], c :: cs)

/-- The local part of a name, which can be empty and does not begin with a hyphen, a mark or a full stop. -/
def readLocal : List Char → Option (List Char × List Char)
  | [] => some ([], [])
  | c :: cs =>
    if Text.isNameStart c || c.isDigit || c == ':' || c == '%' || c == '\\' then spanLocal (c :: cs)
    else some ([], c :: cs)

/-- The IRI that a prefixed name stands for. -/
def readPrefixed (prefixes : PrefixMap) (cs : List Char) : Option (String × List Char) := do
  let (name, cs) ← readPrefixName cs
  let base ← prefixes.find? name
  let (localPart, rest) ← readLocal cs
  return (base ++ String.ofList localPart, rest)

/-- Whether a word has ended and what follows it is no part of a name. -/
def endsWord : List Char → Bool
  | [] => true
  | c :: _ => !(Text.isNameChar c || c == ':')

/-- Whether `a` stands for the type predicate, given what follows it. -/
def endsTypeVerb : List Char → Bool
  | [] => true
  | c :: cs => endsWord (c :: cs) && c != '.' && c.toNat < 0x80

/-! ### Literals -/

/-- The digits at the beginning of a text. -/
def spanDigits (cs : List Char) : List Char × List Char :=
  cs.span Char.isDigit

/-- A plus or minus sign, if there is one. -/
def spanSign : List Char → List Char × List Char
  | '+' :: cs => (['+'], cs)
  | '-' :: cs => (['-'], cs)
  | cs => ([], cs)

/-- A full stop and the digits behind it.  It ends the statement unless a digit or an exponent follows. -/
def spanFraction : List Char → List Char × List Char
  | '.' :: c :: cs =>
    if c.isDigit || c == 'e' || c == 'E' then
      let (digits, rest) := spanDigits (c :: cs)
      ('.' :: digits, rest)
    else ([], '.' :: c :: cs)
  | cs => ([], cs)

/-- A number: an integer, a decimal with digits behind a full stop, or a double with an exponent. -/
def readNumber (cs : List Char) : Option (Literal × List Char) :=
  let (sign, cs) := spanSign cs
  let (whole, cs) := spanDigits cs
  let (fraction, cs) := spanFraction cs
  let mantissa := sign ++ whole ++ fraction
  if whole.isEmpty && fraction.length ≤ 1 then none
  else
    match cs with
    | c :: cs =>
      if c == 'e' || c == 'E' then
        let (expSign, cs) := spanSign cs
        let (digits, rest) := spanDigits cs
        if digits.isEmpty then none
        else some (.ofDatatype (String.ofList (mantissa ++ c :: expSign ++ digits)) Vocabulary.Xsd.double, rest)
      else some (decimal mantissa fraction, c :: cs)
    | [] => some (decimal mantissa fraction, [])
where
  decimal (mantissa fraction : List Char) : Literal :=
    .ofDatatype (String.ofList mantissa)
      (if fraction.isEmpty then Vocabulary.Xsd.integer else Vocabulary.Xsd.decimal)

/-- One of the words `true` and `false`. -/
def readBoolean (cs : List Char) : Option (Literal × List Char) :=
  (["true", "false"].find? fun word => word.toList.isPrefixOf cs && endsWord (cs.drop word.length)).map fun word =>
    (.ofDatatype word Vocabulary.Xsd.boolean, cs.drop word.length)

/-- A string in single or double quotation marks, one or three at each end. -/
def readQuotation : List Char → Option (String × List Char)
  | '"' :: '"' :: '"' :: cs => readLongString '"' cs
  | '\'' :: '\'' :: '\'' :: cs => readLongString '\'' cs
  | '"' :: cs => readString '"' cs
  | '\'' :: cs => readString '\'' cs
  | _ => none

/-! ### Keywords -/

/-- What follows a keyword, written in letters of either case. -/
def afterKeyword? (keyword : String) (cs : List Char) : Option (List Char) :=
  let rest := cs.drop keyword.length
  if (cs.take keyword.length).map Char.toUpper == keyword.toList && endsWord rest then some rest else none

/-- What a directive sets, and whether a full stop ends it. -/
inductive Directive
  | bindPrefix (withStop : Bool)
  | setBase (withStop : Bool)
  deriving DecidableEq, Repr

/-- The keyword of a directive. -/
def readDirective (cs : List Char) : Option (Directive × List Char) :=
  if "@prefix".toList.isPrefixOf cs then some (.bindPrefix true, cs.drop 7)
  else if "@base".toList.isPrefixOf cs then some (.setBase true, cs.drop 5)
  else
    match afterKeyword? "PREFIX" cs with
    | some rest => some (.bindPrefix false, rest)
    | none => (afterKeyword? "BASE" cs).map (Directive.setBase false, ·)

end RdfDataset.Document.Turtle
