/-!
# Lines and gaps

How YAML divides a text into lines, and what it makes of the space between words.

* `normalize` writes every line end in one way and refuses control characters.
* `Gap` is a stretch of blanks and line breaks; `Gap.text` is what a scalar has in its place.
* `Cursor` is a place in a text, with its line and column.
-/

namespace RdfDataset.Yaml

def isBlank (c : Char) : Bool :=
  c == ' ' || c == '\t'

/-- A line break, after line ends have been normalized. -/
def isBreak (c : Char) : Bool :=
  c == '\n' || c == '\u2028' || c == '\u2029'

/-- A character that names of anchors and directives consist of. -/
def isWordChar (c : Char) : Bool :=
  c.isAlphanum || c == '_' || c == '-'

/-- Whether a text ends or goes on with a blank or a line break. -/
def atGap : List Char → Bool
  | [] => true
  | c :: _ => isBlank c || isBreak c

/-- Whether a line begins with the mark of the beginning or the end of a document. -/
def atDocumentMark : List Char → Bool
  | '-' :: '-' :: '-' :: cs | '.' :: '.' :: '.' :: cs => atGap cs
  | _ => false

/-- A character that a document may hold. -/
def isPermitted (c : Char) : Bool :=
  let n := c.toNat
  n == 0x09 || n == 0x0A || n == 0x0D || (0x20 ≤ n && n ≤ 0x7E) || n == 0x85 || (0xA0 ≤ n && n ≤ 0xD7FF)
    || (0xE000 ≤ n && n ≤ 0xFFFD) || 0x10000 ≤ n

/-- Carriage returns and next-line characters end lines as line feeds do. -/
def unifyLineEnds : List Char → List Char
  | [] => []
  | '\r' :: '\n' :: cs => '\n' :: unifyLineEnds cs
  | c :: cs => (if c == '\r' || c == '\u0085' then '\n' else c) :: unifyLineEnds cs

/-- The text without a byte order mark and with uniform line ends, if all its characters are permitted. -/
def normalize (text : List Char) : Option (List Char) :=
  let text := if text.head? = some '\ufeff' then text.drop 1 else text
  if text.all isPermitted then some (unifyLineEnds text) else none

/-! ### Gaps -/

/-- Blanks and line breaks between two words.  The blanks count only as long as there is no line break; an escaped
line break counts for nothing itself. -/
structure Gap where
  blanks : List Char := []
  isBroken : Bool := false
  isEscaped : Bool := false
  breaks : List Char := []
  deriving DecidableEq, Repr, Inhabited

namespace Gap

def isEmpty (g : Gap) : Bool :=
  g.blanks.isEmpty && !g.isBroken

def addBlank (g : Gap) (c : Char) : Gap :=
  if g.isBroken then g else { g with blanks := g.blanks ++ [c] }

def addBreak (g : Gap) (c : Char) : Gap :=
  { g with isBroken := true, breaks := g.breaks ++ [c] }

/-- The gap that begins with an escaped line break. -/
def escaped : Gap :=
  { isBroken := true, isEscaped := true }

/-- Line breaks between two lines: a single one becomes a space, and of several ones the first is left out. -/
def fold : List Char → List Char
  | ['\n'] => [' ']
  | '\n' :: breaks => breaks
  | breaks => breaks

/-- What a scalar has in place of the gap. -/
def text (g : Gap) : List Char :=
  if !g.isBroken then g.blanks else if g.isEscaped then g.breaks else fold g.breaks

end Gap

/-! ### Places -/

/-- A place in a text: what follows it and where it is. -/
structure Cursor where
  rest : List Char
  line : Nat := 0
  column : Nat := 0
  index : Nat := 0
  deriving Repr, Inhabited

namespace Cursor

/-- The place behind some characters. -/
def pass (c : Cursor) : List Char → Cursor
  | [] => c
  | d :: ds =>
    let next : Cursor :=
      if isBreak d then { c with line := c.line + 1, column := 0, index := c.index + 1 }
      else { c with column := c.column + 1, index := c.index + 1 }
    next.pass ds

/-- The place before `rest`, which is an end of what follows. -/
def moveTo (c : Cursor) (rest : List Char) : Cursor :=
  { c.pass (c.rest.take (c.rest.length - rest.length)) with rest }

/-- The place behind the next `n` characters. -/
def skip (c : Cursor) (n : Nat) : Cursor :=
  c.moveTo (c.rest.drop n)

end Cursor

end RdfDataset.Yaml
