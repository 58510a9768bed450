import RdfDataset.Text.Escape
import RdfDataset.Yaml.Line

/-!
# Scalars

A scalar is a piece of text, written in one of five ways.

* `readPlain`, `readSingleQuoted`, `readDoubleQuoted` and `readBlock` read the four kinds of notation and give the
  text that is meant, with the gaps between its words folded.
-/

namespace RdfDataset.Yaml

/-- The notation of a scalar. -/
inductive Style
  | plain
  | singleQuoted
  | doubleQuoted
  | literal
  | folded
  deriving DecidableEq, Repr

/-! ### Plain scalars -/

/-- A bracket, brace or comma, which ends a plain scalar inside brackets or braces. -/
def isFlowMark (c : Char) : Bool :=
  c == ',' || c == '[' || c == ']' || c == '\x7b' || c == '\x7d'

/-- Reads the words of a plain scalar behind a gap.  Words on further lines have to stand at `minColumn` at least.
Also returns the gap behind the last word. -/
def readPlain (inFlow : Bool) (minColumn column : Nat) (gap : Gap) : List Char → Option (List Char × Gap × List Char)
  | [] => some ([], gap, [])
  | c :: cs =>
    if isBlank c then
      if gap.isBroken && column < minColumn && c == '\t' then none
      else readPlain inFlow minColumn (column + 1) (gap.addBlank c) cs
    else if isBreak c then readPlain inFlow minColumn 0 (gap.addBreak c) cs
    else if !gap.isEmpty && ((!inFlow && column < minColumn) || (column == 0 && atDocumentMark (c :: cs)) || c == '#')
    then some ([], gap, c :: cs)
    else if c == ':' && atGap cs then some ([], gap, c :: cs)
    else if inFlow && c == ':' && cs.head?.any (fun d => isFlowMark d || d == '?') then none
    else if inFlow && isFlowMark c then some ([], gap, c :: cs)
    else (readPlain inFlow minColumn (column + 1) {} cs).map fun (text, last, rest) => (gap.text ++ c :: text, last, rest)

/-! ### Quoted scalars -/

/-- What stands before the closing quotation mark of a scalar in single quotation marks. -/
def splitSingleQuoted : List Char → Option (List Char × List Char)
  | [] => none
  | '\'' :: '\'' :: cs => (splitSingleQuoted cs).map fun (raw, rest) => ('\'' :: '\'' :: raw, rest)
  | '\'' :: cs => some ([], cs)
  | c :: cs => (splitSingleQuoted cs).map fun (raw, rest) => (c :: raw, rest)

/-- What stands before the closing quotation mark of a scalar in double quotation marks. -/
def splitDoubleQuoted : List Char → Option (List Char × List Char)
  | [] => none
  | '\\' :: c :: cs => (splitDoubleQuoted cs).map fun (raw, rest) => ('\\' :: c :: raw, rest)
  | '"' :: cs => some ([], cs)
  | c :: cs => (splitDoubleQuoted cs).map fun (raw, rest) => (c :: raw, rest)

/-- Whether a line of a quoted scalar other than the first begins with a mark of documents. -/
def hasDocumentMark (quote : Char) : List Char → Bool
  | [] => false
  | c :: cs => (isBreak c && atDocumentMark (cs ++ [quote])) || hasDocumentMark quote cs

/-- The text of a scalar in single quotation marks. -/
def decodeSingleQuoted (gap : Gap) : List Char → List Char
  | [] => gap.text
  | '\'' :: '\'' :: cs => gap.text ++ '\'' :: decodeSingleQuoted {} cs
  | c :: cs =>
    if isBlank c then decodeSingleQuoted (gap.addBlank c) cs
    else if isBreak c then decodeSingleQuoted (gap.addBreak c) cs
    else gap.text ++ c :: decodeSingleQuoted {} cs

/-- What a backslash and one more character stand for. -/
def shortEscape? : Char → Option Char
  | '0' => some '\x00'
  | 'a' => some '\x07'
  | 'b' => some '\x08'
  | 't' => some '\t'
  | '\t' => some '\t'
  | 'n' => some '\n'
  | 'v' => some '\x0b'
  | 'f' => some '\x0c'
  | 'r' => some '\r'
  | 'e' => some '\x1b'
  | ' ' => some ' '
  | '"' => some '"'
  | '/' => some '/'
  | '\\' => some '\\'
  | 'N' => some '\u0085'
  | '_' => some '\u00a0'
  | 'L' => some '\u2028'
  | 'P' => some '\u2029'
  | _ => none

/-- The text of a scalar in double quotation marks. -/
def decodeDoubleQuoted (gap : Gap) : List Char → Option (List Char)
  | [] => some gap.text
  | '\\' :: 'x' :: a :: b :: cs => do
    let c ← Text.codePoint? [a, b]
    return gap.text ++ c :: (← decodeDoubleQuoted {} cs)
  | '\\' :: 'u' :: a :: b :: c :: d :: cs => do
    let c ← Text.codePoint? [a, b, c, d]
    return gap.text ++ c :: (← decodeDoubleQuoted {} cs)
  | '\\' :: 'U' :: a :: b :: c :: d :: e :: f :: g :: h :: cs => do
    let c ← Text.codePoint? [a, b, c, d, e, f, g, h]
    return gap.text ++ c :: (← decodeDoubleQuoted {} cs)
  | '\\' :: c :: cs =>
    if isBreak c then (decodeDoubleQuoted .escaped cs).map (gap.text ++ ·)
    else do
      let c ← shortEscape? c
      return gap.text ++ c :: (← decodeDoubleQuoted {} cs)
  | c :: cs =>
    if isBlank c then decodeDoubleQuoted (gap.addBlank c) cs
    else if isBreak c then decodeDoubleQuoted (gap.addBreak c) cs
    else (decodeDoubleQuoted {} cs).map (gap.text ++ c :: ·)

/-- A scalar behind its opening single quotation mark. -/
def readSingleQuoted (cs : List Char) : Option (List Char × List Char) := do
  let (raw, rest) ← splitSingleQuoted cs
  if hasDocumentMark '\'' raw then none else some (decodeSingleQuoted {} raw, rest)

/-- A scalar behind its opening double quotation mark. -/
def readDoubleQuoted (cs : List Char) : Option (List Char × List Char) := do
  let (raw, rest) ← splitDoubleQuoted cs
  if hasDocumentMark '"' raw then none else some (← decodeDoubleQuoted {} raw, rest)

/-! ### Block scalars -/

/-- What becomes of the line breaks at the end of a block scalar. -/
inductive Chomping
  | strip
  | clip
  | keep
  deriving DecidableEq, Repr

/-- The indicators behind `|` or `>`: how to chomp, and how deep the text is indented if that is given. -/
def readBlockHeader : List Char → Option ((Chomping × Option Nat) × List Char)
  | '+' :: cs => some (withDigit .keep cs)
  | '-' :: cs => some (withDigit .strip cs)
  | '0' :: _ => none
  | c :: cs =>
    if c.isDigit then
      let depth := some (c.toNat - '0'.toNat)
      match cs with
      | '+' :: cs => some ((.keep, depth), cs)
      | '-' :: cs => some ((.strip, depth), cs)
      | cs => some ((.clip, depth), cs)
    else some ((.clip, none), c :: cs)
  | [] => some ((.clip, none), [])
where
  withDigit (chomping : Chomping) : List Char → (Chomping × Option Nat) × List Char
    | c :: cs =>
      if c.isDigit && c != '0' then ((chomping, some (c.toNat - '0'.toNat)), cs) else ((chomping, none), c :: cs)
    | [] => ((chomping, none), [])

/-- What follows the first line of a block scalar behind its indicators: blanks, a comment and the line break. -/
def dropHeaderLine (cs : List Char) : Option (List Char) :=
  let cs := cs.dropWhile isBlank
  let cs := if cs.head? = some '#' then cs.dropWhile (!isBreak ·) else cs
  match cs with
  | [] => some []
  | c :: cs => if isBreak c then some cs else none

/-- The breaks of the empty lines at the beginning of a text, and the column at which the next line begins.  No more
than `indent` spaces are taken from a line. -/
def readEmptyLines (indent column : Nat) : List Char → Option (List Char × Nat × List Char)
  | [] => some ([], column, [])
  | c :: cs =>
    if column < indent && c == ' ' then readEmptyLines indent (column + 1) cs
    else if column < indent && c == '\t' then none
    else if isBreak c then (readEmptyLines indent 0 cs).map fun (breaks, rest) => (c :: breaks, rest)
    else some ([], column, c :: cs)

/-- The depth of the deepest of the empty lines at the beginning of a text and the line behind them. -/
def deepestLine (column deepest : Nat) : List Char → Nat
  | [] => max column deepest
  | c :: cs =>
    if c == ' ' then deepestLine (column + 1) deepest cs
    else if isBreak c then deepestLine 0 (max column deepest) cs
    else max column deepest

/-- Whether a tab stands where the indentation of the first line is expected. -/
def hasIndentationTab : List Char → Bool
  | [] => false
  | c :: cs => if c == ' ' || isBreak c then hasIndentationTab cs else c == '\t'

/-- The lines of a block scalar.  `lineBreak` and `emptyLines` are the breaks behind the last line that was read, and
`afterBlank` says whether that line began with a blank. -/
def readBlockLines (isFolded : Bool) (indent : Nat) (lineBreak emptyLines : List Char) (afterBlank : Bool) :
    Nat → Nat → List Char → Option (List Char × List Char × List Char × List Char)
  | 0, _, cs => some ([], lineBreak, emptyLines, cs)
  | bound + 1, column, cs => do
    if column != indent || cs.isEmpty then return ([], lineBreak, emptyLines, cs)
    let startsBlank := cs.head?.any isBlank
    let joined :=
      if isFolded && lineBreak == ['\n'] && !afterBlank && !startsBlank then
        if emptyLines.isEmpty then [' '] else []
      else lineBreak
    let line := cs.takeWhile (!isBreak ·)
    let afterLine := cs.drop line.length
    let (breaks, column, rest) ← readEmptyLines indent 0 (afterLine.drop 1)
    let (text, last) ← readBlockLines isFolded indent (afterLine.take 1) breaks startsBlank bound column rest
    return (joined ++ emptyLines ++ line ++ text, last)

/-- A block scalar behind its `|` or `>`.  Its text stands deeper than the collection that it belongs to, which begins
at column `parent`, if there is one. -/
def readBlock (isFolded : Bool) (parent : Option Nat) (cs : List Char) : Option (List Char × List Char) := do
  let ((chomping, depth), cs) ← readBlockHeader cs
  let cs ← dropHeaderLine cs
  let indent ← match depth with
    | some depth => some (parent.getD 0 + depth)
    | none =>
      if hasIndentationTab cs then none
      else some (max (deepestLine 0 0 cs) (max 1 (parent.elim 0 (· + 1))))
  let (breaks, column, rest) ← readEmptyLines indent 0 cs
  let (text, lineBreak, emptyLines, rest) ← readBlockLines isFolded indent [] breaks false cs.length column rest
  let ending := match chomping with
    | .strip => []
    | .clip => lineBreak
    | .keep => lineBreak ++ emptyLines
  return (text ++ ending, rest)

end RdfDataset.Yaml
