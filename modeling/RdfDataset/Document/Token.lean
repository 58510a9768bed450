import RdfDataset.Iri.Resolve
import RdfDataset.Term.Basic
import RdfDataset.Text.Escape

/-!
# Tokens of all formats

A token reader takes a text and returns what it has read from its beginning together with the rest, or nothing if
the text does not begin with such a token.

* `readReference` and `readIri` read an IRI in angle brackets.
* `readLabel` reads a blank node label, `readTag` a language tag.
* `readString` reads a string on one line, `readLongString` one that may run over several lines.
* `readLiteralEnd` reads what follows the value of a literal.
-/

namespace RdfDataset.Document

/-- How many constructs may be open at the same time. -/
def maxDepth : Nat := 128

def isLineEnd (c : Char) : Bool :=
  c == '\n' || c == '\r'

/-- An IRI in angle brackets, resolved against a base if there is one. -/
def readReference (base : Option Iri.Reference) : List Char → Option (Iri.Reference × List Char)
  | '<' :: cs => do
    let (raw, rest) ← Text.splitFirst '>' cs
    let text ← Text.unescape (fun _ => none) raw
    let iri ← (Iri.readWithBase base text).toOption
    return (iri, rest)
  | _ => none

/-- The text of an IRI in angle brackets. -/
def readIri (base : Option Iri.Reference) (cs : List Char) : Option (String × List Char) :=
  (readReference base cs).map fun (iri, rest) => (String.ofList iri.text, rest)

/-- Whether a full stop belongs to a name, given what follows it: a name character or anything beyond ASCII. -/
def continuesName : List Char → Bool
  | [] => false
  | c :: _ => Text.isNameChar c || 0x80 ≤ c.toNat

/-- The name characters at the beginning of a text, with the full stops between them. -/
def spanName : List Char → List Char × List Char
  | [] => ([], [])
  | c :: cs =>
    if Text.isNameChar c || (c == '.' && continuesName cs) then
      let (name, rest) := spanName cs
      (c :: name, rest)
    else ([], c :: cs)

/-- A blank node label. -/
def readLabel : List Char → Option (String × List Char)
  | [] => none
  | c :: cs =>
    if Text.isNameStart c || c.isDigit then
      let (name, rest) := spanName cs
      some (String.ofList (c :: name), rest)
    else none

/-- A language tag, which is lower-cased. -/
def readTag (cs : List Char) : Option (String × List Char) := do
  let written := cs.takeWhile fun c => c.isAlphanum || c == '-'
  let tag ← (LanguageTag.read (String.ofList written)).toOption
  return (tag, cs.drop written.length)

/-- What stands before the closing quotation mark of a string on one line, and what follows it. -/
def splitString (quote : Char) : List Char → Option (List Char × List Char)
  | [] => none
  | '\\' :: c :: cs => (splitString quote cs).map fun (raw, rest) => ('\\' :: c :: raw, rest)
  | c :: cs =>
    if c = quote then some ([], cs)
    else if isLineEnd c then none
    else (splitString quote cs).map fun (raw, rest) => (c :: raw, rest)

/-- What stands before the three closing quotation marks of a long string, and what follows them. -/
def splitLongString (quote : Char) : List Char → Option (List Char × List Char)
  | [] => none
  | '\\' :: c :: cs => (splitLongString quote cs).map fun (raw, rest) => ('\\' :: c :: raw, rest)
  | c :: cs =>
    if c = quote && cs.take 2 == [quote, quote] then some ([], cs.drop 2)
    else (splitLongString quote cs).map fun (raw, rest) => (c :: raw, rest)

/-- A string on one line, behind its opening quotation mark. -/
def readString (quote : Char) (cs : List Char) : Option (String × List Char) := do
  let (raw, rest) ← splitString quote cs
  let value ← Text.unescape Text.stringEscape raw
  return (String.ofList value, rest)

/-- A long string, behind its three opening quotation marks. -/
def readLongString (quote : Char) (cs : List Char) : Option (String × List Char) := do
  let (raw, rest) ← splitLongString quote cs
  let value ← Text.unescape Text.stringEscape raw
  return (String.ofList value, rest)

/-- What follows the value of a literal: a language tag, a datatype or nothing.  Between them there may be space,
which `skip` drops. -/
def readLiteralEnd (skip : List Char → List Char) (readDatatype : List Char → Option (String × List Char))
    (value : String) (cs : List Char) : Option (Literal × List Char) :=
  match skip cs with
  | '@' :: cs => (readTag cs).map fun (tag, rest) => (.tagged value tag, rest)
  | '^' :: '^' :: cs => (readDatatype (skip cs)).map fun (datatype, rest) => (.ofDatatype value datatype, rest)
  | cs => some (.plain value, cs)

end RdfDataset.Document
