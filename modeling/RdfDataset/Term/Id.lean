import RdfDataset.Term.Basic
import RdfDataset.Text.Slice

/-!
# Ids of terms

Every term has an id, a text that tells it apart from all other terms: an IRI is its own id, a blank node has `_:`
before its label, a variable `?` before its name, a literal is quoted and has its tag or datatype behind it, the
default graph has the empty id, and a quoted quad has the ids of its components between `<<` and `>>`.  Inside a
quoted quad the quotation marks in the value of a literal are doubled.

* `Term.id` is the id of a term, `Term.ofId?` the term of an id.
* `splitComponents` cuts the inside of a quoted quad at the spaces between its components, which `componentSlices`
  finds among its bytes.
-/

namespace RdfDataset

/-- Every quotation mark twice. -/
def doubleQuotes : List Char → List Char
  | [] => []
  | '"' :: cs => '"' :: '"' :: doubleQuotes cs
  | c :: cs => c :: doubleQuotes cs

/-- Two quotation marks in a row become one. -/
def undoubleQuotes : List Char → List Char
  | [] => []
  | '"' :: '"' :: cs => '"' :: undoubleQuotes cs
  | c :: cs => c :: undoubleQuotes cs

/-- The id of a literal, standing alone or inside a quoted quad. -/
def Literal.idChars (nested : Bool) (l : Literal) : List Char :=
  let value := l.value.toList
  '"' :: (if nested then doubleQuotes value else value) ++ '"' ::
    match l with
    | .plain _ => []
    | .tagged _ tag => '@' :: tag.toList
    | .typed _ datatype _ => '^' :: '^' :: datatype.toList

/-- The id of a term, standing alone or inside a quoted quad. -/
def Term.idChars (nested : Bool) : Term → List Char
  | .iri text => text.toList
  | .blank label => '_' :: ':' :: label.toList
  | .literal l => l.idChars nested
  | .var name => '?' :: name.toList
  | .defaultGraph => []
  | .quoted s p o g =>
    '<' :: '<' :: s.idChars true ++ ' ' :: p.idChars true ++ ' ' :: o.idChars true
      ++ (if g.isDefaultGraph then [] else ' ' :: g.idChars true) ++ ['>', '>']

/-- The id of a term. -/
def Term.id (t : Term) : String :=
  String.ofList (t.idChars false)

/-- What a byte is inside a quoted quad, as far as cutting it into components goes. -/
inductive Mark
  | quote
  | opening
  | closing
  | space
  | other
  deriving DecidableEq, Repr

/-- The bytes of quotation marks, angle brackets and spaces are marks; no other character has such a byte. -/
def Mark.ofByte (byte : UInt8) : Mark :=
  if byte = '"'.toUInt8 then .quote
  else if byte = '<'.toUInt8 then .opening
  else if byte = '>'.toUInt8 then .closing
  else if byte = ' '.toUInt8 then .space
  else .other

/-- The marks that the bytes of a text are. -/
def marks (cs : List Char) : List Mark :=
  (Text.bytes cs).map Mark.ofByte

/-- What a position inside a quoted quad lies in: nested quads, and the value of a literal. -/
inductive Position
  /-- Outside literals; `start` holds where a component may begin. -/
  | outside (depth : Nat) (start : Bool)
  | inLiteral (depth : Nat)

/-- The offsets at which components begin and end, when cutting at the spaces that lie outside literals and nested
quads.  The current component has begun at `start`, and `offset` bytes have been passed.  There is no result when a
literal or a nested quad does not end, and when one ends that has not begun. -/
def sliceAtSpaces : Position → (start offset : Nat) → List Mark → Option (List (Nat × Nat))
  | .outside 0 _, start, offset, [] => some [(start, offset)]
  | _, _, _, [] => none
  | .inLiteral depth, start, offset, .quote :: .quote :: marks =>
    sliceAtSpaces (.inLiteral depth) start (offset + 2) marks
  | .inLiteral depth, start, offset, mark :: marks =>
    sliceAtSpaces (if mark = .quote then .outside depth false else .inLiteral depth) start (offset + 1) marks
  | .outside depth true, start, offset, .quote :: marks => sliceAtSpaces (.inLiteral depth) start (offset + 1) marks
  | .outside depth _, start, offset, .opening :: .opening :: marks =>
    sliceAtSpaces (.outside (depth + 1) true) start (offset + 2) marks
  | .outside depth _, start, offset, .closing :: .closing :: marks =>
    match depth with
    | 0 => none
    | depth + 1 => sliceAtSpaces (.outside depth false) start (offset + 2) marks
  | .outside 0 _, start, offset, .space :: marks =>
    (sliceAtSpaces (.outside 0 true) (offset + 1) (offset + 1) marks).map ((start, offset) :: ·)
  | .outside depth _, start, offset, mark :: marks =>
    sliceAtSpaces (.outside depth (mark = .space)) start (offset + 1) marks

/-- Where the components between `<<` and `>>` begin and end. -/
def componentSlices (inside : List Char) : Option (List (Nat × Nat)) :=
  sliceAtSpaces (.outside 0 true) 0 0 (marks inside)

/-- The components between `<<` and `>>`. -/
def splitComponents (inside : List Char) : Option (List (List Char)) := do
  (← componentSlices inside).mapM fun (start, stop) => Text.slice? start stop inside

/-- What stands between `<<` and `>>`, if the text begins and ends so. -/
def insideBrackets? : List Char → Option (List Char)
  | '<' :: '<' :: cs =>
    match cs.reverse with
    | '>' :: '>' :: inside => some inside.reverse
    | _ => none
  | _ => none

/-- The literal of an id that begins with a quotation mark.  Its value ends at the last one, if that is another. -/
def Literal.ofIdChars? (nested : Bool) (id : List Char) : Except TermError Literal := do
  let malformed := TermError.id (String.ofList id)
  let some stop := (Text.lastOffset? '"' id).filter (0 < ·) | throw malformed
  let some value := Text.slice? 1 stop id | throw malformed
  let some suffix := Text.slice? (stop + 1) (Text.utf8Length id) id | throw malformed
  let value := String.ofList (if nested then undoubleQuotes value else value)
  match suffix with
  | [] => return .plain value
  | '@' :: tag => Literal.tagged? value (String.ofList tag)
  | '^' :: '^' :: datatype => Literal.typed? value (String.ofList datatype)
  | _ => throw malformed

/-- A quoted quad of three components, or of four. -/
def Term.ofComponents? : List Term → Option Term
  | [s, p, o] => some (.quoted s p o .defaultGraph)
  | [s, p, o, g] => some (.quoted s p o g)
  | _ => none

private theorem length_le_of_mapM_slice? {cs : List Char} {slices : List (Nat × Nat)} {parts : List (List Char)}
    (h : slices.mapM (fun (start, stop) => Text.slice? start stop cs) = some parts) :
    ∀ part ∈ parts, part.length ≤ cs.length := by
  induction slices generalizing parts with
  | nil =>
    obtain rfl := Option.some.inj h
    simp
  | cons slice slices ih =>
    rw [List.mapM_cons] at h
    obtain ⟨first, hfirst, h⟩ := Option.bind_eq_some_iff.1 h
    obtain ⟨others, hothers, h⟩ := Option.bind_eq_some_iff.1 h
    obtain rfl := Option.some.inj h
    exact List.forall_mem_cons.2 ⟨Text.length_le_of_slice? hfirst, ih hothers⟩

/-- No component is longer than the text that is cut. -/
theorem length_le_of_splitComponents {inside : List Char} {components : List (List Char)}
    (h : splitComponents inside = some components) : ∀ component ∈ components, component.length ≤ inside.length := by
  obtain ⟨slices, -, hslices⟩ := Option.bind_eq_some_iff.1 h
  exact length_le_of_mapM_slice? hslices

private theorem length_insideBrackets {id inside : List Char} (h : insideBrackets? id = some inside) :
    inside.length < id.length := by
  unfold insideBrackets? at h
  split at h
  · rename_i cs
    split at h
    · rename_i inside' hr
      obtain rfl := Option.some.inj h
      have := congrArg List.length hr
      simp at this ⊢
      omega
    · cases h
  · cases h

/-- Reads an id, standing alone or inside a quoted quad. -/
def Term.ofIdChars? (nested : Bool) (id : List Char) : Except TermError Term :=
  match id with
  | [] => .ok .defaultGraph
  | '_' :: ':' :: label => Term.blank? (String.ofList label)
  | '?' :: name => Term.var? (String.ofList name)
  | '"' :: value => (Literal.ofIdChars? nested ('"' :: value)).map .literal
  | id =>
    match hi : insideBrackets? id with
    | none => Term.iri? (String.ofList id)
    | some inside =>
      match hs : splitComponents inside with
      | none => .error (.id (String.ofList id))
      | some components => do
        let terms ← components.attach.mapM fun ⟨component, mem⟩ =>
          have : component.length < id.length :=
            Nat.lt_of_le_of_lt (length_le_of_splitComponents hs component mem) (length_insideBrackets hi)
          Term.ofIdChars? true component
        match Term.ofComponents? terms with
        | some t => return t
        | none => throw (.id (String.ofList id))
termination_by id.length

/-- The term of an id. -/
def Term.ofId? (id : String) : Except TermError Term :=
  Term.ofIdChars? false id.toList

end RdfDataset
