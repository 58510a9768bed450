/-!
# Addresses in brackets

The texts that may stand between `[` and `]` as the host of an IRI.

* `isIpv6`: an address of eight groups of at most four hexadecimal digits, one run of zero groups possibly left out
  as `::`, the last two groups possibly written as four decimal numbers.
* `futureAddressFault`: what is wrong with an address of a version to come, `v`, its number, a dot and the address proper.
-/

namespace RdfDataset.Iri

/-- A digit of base sixteen. -/
def isHexDigit (c : Char) : Bool :=
  c.isDigit || ('a' ≤ c && c ≤ 'f') || ('A' ≤ c && c ≤ 'F')

/-- A decimal number of at most three digits, below 256 and without a leading zero, and what follows it. -/
def takeByte? (cs : List Char) : Option (List Char) :=
  let digits := cs.takeWhile Char.isDigit
  let value := digits.foldl (fun n d => 10 * n + (d.toNat - '0'.toNat)) 0
  if digits.isEmpty || digits.length > 3 || value > 255 || (digits.length > 1 && digits.head? == some '0') then none
  else some (cs.drop digits.length)

/-- What follows a given character, if the text begins with it. -/
def takeChar? (expected : Char) : List Char → Option (List Char)
  | [] => none
  | c :: cs => if c = expected then some cs else none

/-- What follows four decimal numbers with dots between them. -/
def takeIpv4? (cs : List Char) : Option (List Char) := do
  let cs ← takeByte? cs
  let cs ← takeByte? (← takeChar? '.' cs)
  let cs ← takeByte? (← takeChar? '.' cs)
  takeByte? (← takeChar? '.' cs)

/-- What follows one to four hexadecimal digits that no further one follows. -/
def takeGroup? (cs : List Char) : Option (List Char) :=
  let digits := cs.takeWhile isHexDigit
  if digits.isEmpty || digits.length > 4 then none else some (cs.drop digits.length)

/-- The groups at the beginning of a text, as many as fit into `room`: how many there are, whether they end with
four decimal numbers, and what follows.  Every group but the first has a colon before it. -/
def takeGroups (first : Bool) : Nat → List Char → Nat × Bool × List Char
  | 0, cs => (0, false, cs)
  | room + 1, cs =>
    let start := if first then some cs else takeChar? ':' cs
    match if room = 0 then none else start.bind takeIpv4? with
    | some rest => (2, true, rest)
    | none =>
      match start.bind takeGroup? with
      | none => (0, false, cs)
      | some rest =>
        let (count, decimal, rest) := takeGroups false room rest
        (count + 1, decimal, rest)

/-- Eight groups, or fewer around one `::`, before which no decimal numbers stand. -/
def isIpv6 (cs : List Char) : Bool :=
  match takeGroups true 8 cs with
  | (8, _, rest) => rest.isEmpty
  | (_, true, _) => false
  | (count, false, ':' :: ':' :: rest) => (takeGroups true (7 - count) rest).2.2.isEmpty
  | _ => false

/-- The character at which an address of a version to come goes wrong, if it does: `]` when it ends too early. -/
def futureAddressFault (isAddressChar : Char → Bool) (cs : List Char) : Option Char :=
  let digits := cs.takeWhile isHexDigit
  match cs.drop digits.length with
  | [] => some ']'
  | '.' :: rest =>
    if digits.isEmpty then some (rest.head?.getD ']')
    else if rest.isEmpty then some ']'
    else rest.find? fun c => !(isAddressChar c || c == ':')
  | c :: _ => some c

end RdfDataset.Iri
