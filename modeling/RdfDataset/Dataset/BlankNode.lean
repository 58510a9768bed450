import RdfDataset.Dataset.Basic

/-!
# New blank nodes

A new blank node has a label that the dataset has never seen, and gets its number at once, so that nothing else can
get this label later.

* `freshBlank` follows a suggested label with numbers until it is unused, or counts on from the last label.

A call that fails returns the dataset that it leaves behind as well.
-/

namespace RdfDataset.Dataset

variable [Arrangement]

/-- Whether no term of the dataset ever had this blank node label. -/
def isUnused (d : Dataset) (label : String) : Bool :=
  !d.terms.containsId ("_:" ++ label)

/-- The first number from `start` on that passes a test, among as many as `tries`. -/
def firstNumber (test : Nat → Bool) : Nat → Nat → Nat
  | 0, start => start
  | tries + 1, start => if test start then start else firstNumber test tries (start + 1)

/-- The labels that are tried for a suggested one: itself, and itself with the numbers from one on. -/
def suggestedLabel (base : String) : Nat → String
  | 0 => base
  | n + 1 => base ++ toString (n + 1)

/-- The labels that are tried without a suggestion. -/
def countedLabel (d : Dataset) (n : Nat) : String :=
  d.settings.blankNodePrefix ++ toString n

/-- Reserves a label. -/
def mint (d : Dataset) (label : String) : Except TermError Term × Dataset :=
  match Term.blank? label with
  | .error e => (.error e, d)
  | .ok node => (.ok node, { d with terms := (d.terms.intern node).2 })

/-- A new blank node.  Of one more label than there are terms, at least one is unused.  Without a suggestion the counter
has moved on before the label is checked. -/
def freshBlank (d : Dataset) (suggestion : Option String) : Except TermError Term × Dataset :=
  let tries := d.terms.size + 1
  match suggestion.filter (!·.isEmpty) with
  | some base =>
    match checkBlank base with
    | .error e => (.error e, d)
    | .ok _ => d.mint (suggestedLabel base (firstNumber (d.isUnused ∘ suggestedLabel base) tries 0))
  | none =>
    let n := firstNumber (d.isUnused ∘ d.countedLabel) tries d.nextBlank
    { d with nextBlank := n + 1 }.mint (d.countedLabel n)

/-- Starts counting blank nodes again. -/
def resetBlankCounter (d : Dataset) : Dataset :=
  { d with nextBlank := 0 }

end RdfDataset.Dataset
