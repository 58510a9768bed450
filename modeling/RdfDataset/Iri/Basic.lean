import RdfDataset.Iri.IpAddress

/-!
# IRIs

An IRI reference has up to five parts: scheme, authority, path, query and fragment.

* `Reference.read` cuts a text into these parts and reports the first character that may not stand where it does.
* `Reference.text` puts the parts together again.
* `check` accepts the absolute IRIs: the references that have a scheme.
-/

namespace RdfDataset.Iri

/-- What is wrong with a text that should be an IRI. -/
inductive Error
  | noScheme
  | hostCharacter (c : Char)
  | hostAddress
  | portCharacter (c : Char)
  | codePoint (c : Char)
  | percentEncoding (text : List Char)
  | pathBegin
  deriving DecidableEq, Repr

/-- The wording of an error. -/
def Error.message : Error → String
  | .noScheme => "No scheme found in an absolute IRI"
  | .hostCharacter c => s!"Invalid character '{c}' in host"
  | .hostAddress => "Invalid host IP (invalid IPv6 address syntax)"
  | .portCharacter c => s!"Invalid character '{c}'"
  | .codePoint c => s!"Invalid IRI code point '{c}'"
  | .percentEncoding text => s!"Invalid IRI percent encoding '{String.ofList text}'"
  | .pathBegin => "An IRI path is not allowed to start with //"

/-- The parts of an IRI reference, without the delimiters before and after them. -/
structure Reference where
  scheme : Option (List Char)
  authority : Option (List Char)
  path : List Char
  query : Option (List Char)
  fragment : Option (List Char)
  deriving DecidableEq, Repr

/-- The text of a reference. -/
def Reference.text (r : Reference) : List Char :=
  r.scheme.elim [] (· ++ [':']) ++ r.authority.elim [] (['/', '/'] ++ ·) ++ r.path
    ++ r.query.elim [] ('?' :: ·) ++ r.fragment.elim [] ('#' :: ·)

/-- A letter, digit or mark that stands for itself everywhere, or a delimiter inside one part. -/
def isUnreserved (c : Char) : Bool :=
  let n := c.toNat
  c.isAlphanum || "-._~!$&'()*+,;=".toList.contains c
    || (0xA0 ≤ n && n ≤ 0xD7FF) || (0xF900 ≤ n && n ≤ 0xFDCF) || (0xFDF0 ≤ n && n ≤ 0xFFEF)
    || (0x10000 ≤ n && n ≤ 0xDFFFD && n % 0x10000 ≤ 0xFFFD) || (0xE1000 ≤ n && n ≤ 0xEFFFD)

/-- A character of the private-use planes, which only a query may hold. -/
def isPrivateUse (c : Char) : Bool :=
  let n := c.toNat
  (0xE000 ≤ n && n ≤ 0xF8FF) || (0xF0000 ≤ n && n ≤ 0xFFFFD) || (0x100000 ≤ n && n ≤ 0x10FFFD)

/-- A character of a path, slashes included. -/
def isPathChar (c : Char) : Bool :=
  isUnreserved c || c == ':' || c == '@' || c == '/'

/-- Reads up to the first character of the class `stop`.  What is read consists of characters of the class
`allowed` and of percent signs with two hexadecimal digits behind each. -/
def scan (allowed stop : Char → Bool) : List Char → Except Error (List Char × List Char)
  | [] => .ok ([], [])
  | '%' :: h :: l :: cs =>
    if stop '%' then .ok ([], '%' :: h :: l :: cs)
    else if isHexDigit h && isHexDigit l then
      (scan allowed stop cs).map fun (read, rest) => ('%' :: h :: l :: read, rest)
    else .error (.percentEncoding ['%', h, l])
  | c :: cs =>
    if stop c then .ok ([], c :: cs)
    else if c = '%' then .error (.percentEncoding (c :: cs))
    else if allowed c then (scan allowed stop cs).map fun (read, rest) => (c :: read, rest)
    else .error (.codePoint c)

/-- The end of an authority. -/
def endsAuthority (c : Char) : Bool :=
  c == '/' || c == '?' || c == '#'

/-- The digits of a port. -/
def readPort : List Char → Except Error (List Char × List Char)
  | [] => .ok ([], [])
  | c :: cs =>
    if endsAuthority c then .ok ([], c :: cs)
    else if c.isDigit then (readPort cs).map fun (port, rest) => (c :: port, rest)
    else .error (.portCharacter c)

/-- A port behind a colon, if there is one. -/
def readOptionalPort : List Char → Except Error (List Char × List Char)
  | ':' :: cs => (readPort cs).map fun (port, rest) => (':' :: port, rest)
  | cs => .ok ([], cs)

/-- Whether an address may stand between brackets. -/
def checkAddress (address : List Char) : Except Error Unit :=
  match address with
  | 'v' :: cs | 'V' :: cs =>
    match futureAddressFault (fun c => c.toNat < 0x80 && isUnreserved c) cs with
    | some c => .error (.hostCharacter c)
    | none => .ok ()
  | _ => if isIpv6 address then .ok () else .error .hostAddress

/-- A host, by address or by name, and the port behind it. -/
def readHost : List Char → Except Error (List Char × List Char)
  | '[' :: cs => do
    let address := cs.takeWhile (· != ']')
    match cs.drop address.length with
    | [] => .error (.hostCharacter '[')
    | close :: rest =>
      checkAddress address
      match rest with
      | c :: _ => if !(c == ':' || endsAuthority c) then .error (.hostCharacter c)
      | [] => pure ()
      let (port, rest) ← readOptionalPort rest
      return ('[' :: address ++ close :: port, rest)
  | cs => do
    let (name, rest) ← scan isUnreserved (fun c => c == ':' || endsAuthority c) cs
    let (port, rest) ← readOptionalPort rest
    return (name ++ port, rest)

/-- An authority: what stands before an `@`, if there is one, and the host. -/
def readAuthority (cs : List Char) : Except Error (List Char × List Char) := do
  let (user, rest) ←
    scan (fun c => isUnreserved c || c == ':') (fun c => c == '@' || c == '[' || endsAuthority c) cs
  match rest with
  | '@' :: afterUser =>
    let (host, rest) ← readHost afterUser
    return (user ++ '@' :: host, rest)
  | _ => readHost cs

/-- The fragment at the end of a reference. -/
def readFragment : List Char → Except Error (Option (List Char))
  | '#' :: cs => (scan (fun c => isPathChar c || c == '?') (fun _ => false) cs).map fun (read, _) => some read
  | _ => .ok none

/-- The query and the fragment at the end of a reference. -/
def readQuery : List Char → Except Error (Option (List Char) × Option (List Char))
  | '?' :: cs => do
    let (query, rest) ← scan (fun c => isPathChar c || c == '?' || isPrivateUse c) (· == '#') cs
    return (some query, ← readFragment rest)
  | cs => return (none, ← readFragment cs)

/-- The end of a path. -/
def endsPath (c : Char) : Bool :=
  c == '?' || c == '#'

/-- What follows the scheme: authority and path, or a path alone. -/
def readAfterScheme (cs : List Char) :
    Except Error (Option (List Char) × List Char × Option (List Char) × Option (List Char)) := do
  match cs with
  | '/' :: '/' :: cs =>
    let (authority, rest) ← readAuthority cs
    let (path, rest) ← scan isPathChar endsPath rest
    return (some authority, path, ← readQuery rest)
  | cs =>
    let (path, rest) ← scan isPathChar endsPath cs
    return (none, path, ← readQuery rest)

/-- The scheme of a reference and what follows its colon, if the text has a scheme. -/
def splitScheme? : List Char → Option (List Char × List Char)
  | [] => none
  | c :: cs =>
    let scheme := cs.takeWhile fun d => d.isAlphanum || d == '+' || d == '-' || d == '.'
    match cs.drop scheme.length with
    | ':' :: rest => if c.isAlpha then some (c :: scheme, rest) else none
    | _ => none

/-- Reads a reference.  Without a scheme, a colon may not stand in the first segment of the path. -/
def Reference.read (cs : List Char) : Except Error Reference := do
  match splitScheme? cs with
  | some (scheme, rest) =>
    let (authority, path, query, fragment) ← readAfterScheme rest
    return ⟨some scheme, authority, path, query, fragment⟩
  | none =>
    if cs.head? = some ':' then throw .noScheme
    let _ ← scan (fun c => isUnreserved c || c == '@') (fun c => c == '/' || endsPath c) cs
    let (authority, path, query, fragment) ← readAfterScheme cs
    return ⟨none, authority, path, query, fragment⟩

/-- Reads an absolute IRI. -/
def readAbsolute (cs : List Char) : Except Error Reference := do
  let r ← Reference.read cs
  if r.scheme.isNone then throw .noScheme
  return r

/-- Accepts the absolute IRIs. -/
def check (cs : List Char) : Except Error Unit := do
  let _ ← readAbsolute cs

end RdfDataset.Iri
