import RdfDataset.Proofs.Document.Turtle.KeepApart
import RdfDataset.Proofs.Document.Turtle.Run

/-!
# Reading back terms

A term that has been written is read back from its text in a Turtle or TriG document, with its labels kept apart from
generated ones.  A term that is not readable is not read as another one: its reader fails or stops inside a label.

* `Document.Turtle.ReadsBack` and `BreaksOff`: what a reader can make of the text of a term.
* `readsBack_readTerm` and `breaksOff_readTerm` show by induction on the term which of them holds, along with the depth
  that is left for quoted triples.
-/

namespace RdfDataset.Document.Turtle

open Progress (before)

/-- A term is read from its text in front of a space, with its labels renamed.  What is left is what follows, up to the
space: the reader of a literal drops it in its search for a tag. -/
def ReadsBack (read : Reading Term) (t : Term) : Prop :=
  ∀ g quads tail, StartsToken tail → ∃ rest, dropSpace rest = tail ∧
    read.run (before g quads (t.display ++ ' ' :: tail)) = .ok (t.relabel keepApart, before g quads rest)

/-- A reader does not read a term from its text, or stops inside one of its labels. -/
def BreaksOff (read : Reading Term) (t : Term) : Prop :=
  ∀ g quads tail t' p, read.run (before g quads (t.display ++ ' ' :: tail)) = .ok (t', p) →
    ∃ rest, CutsLabel rest ∧ p = before g quads rest

variable {g : Term} {quads : List Quad}

section

variable {read read' : Reading Term} {t : Term}
  (h : ∀ g quads cs, read.run (before g quads (t.display ++ cs)) = read'.run (before g quads (t.display ++ cs)))

include h

/-- Whether a term is read back depends only on what a reader does with the text of the term. -/
theorem ReadsBack.congr (hread : ReadsBack read' t) : ReadsBack read t := by
  intro g quads tail htail
  rw [h]
  exact hread g quads tail htail

theorem BreaksOff.congr (hread : BreaksOff read' t) : BreaksOff read t := by
  intro g quads tail t' p
  rw [h]
  exact hread g quads tail t' p

end

/-! ### IRIs and blank nodes -/

private theorem displayIri_append (text : String) (cs : List Char) :
    displayIri text ++ cs = '<' :: (text.toList ++ '>' :: cs) := by
  simp [displayIri]

private theorem run_readIriTerm {text : String} (h : checkIri text = .ok ()) (cs : List Char) :
    readIriTerm.run (before g quads (displayIri text ++ cs)) = .ok (.iri text, before g quads cs) := by
  have hread := readIri_displayIri h cs
  rw [displayIri_append] at hread ⊢
  simp [readIriTerm, run_token, hread]

/-- A predicate is read back. -/
theorem run_readVerb {text : String} (h : checkIri text = .ok ()) (cs : List Char) :
    readVerb.run (before g quads (displayIri text ++ cs)) = .ok (.iri text, before g quads cs) := by
  have hread : readIriTerm.run (before g quads (displayIri text ++ cs)) = _ := run_readIriTerm h cs
  rw [displayIri_append] at hread ⊢
  simp [readVerb, hread]

private theorem run_readFlatTerm_iri {text : String} (h : checkIri text = .ok ()) (cs : List Char) :
    readFlatTerm.run (before g quads (displayIri text ++ cs)) = .ok (.iri text, before g quads cs) := by
  have hread : readIriTerm.run (before g quads (displayIri text ++ cs)) = _ := run_readIriTerm h cs
  rw [displayIri_append] at hread ⊢
  simp [readFlatTerm, afterEmptyBrackets?, readSimpleTerm, readWord, readBoolean, Char.isDigit, hread]

/-- A label is read in a blank node. -/
private theorem run_readFlatTerm_blank {label : String} {cs : List Char} {r : Term × Progress} :
    readFlatTerm.run (before g quads ((Term.blank label).display ++ cs)) = .ok r ↔
      ∃ name rest, readLabel (label.toList ++ cs) = some (name, rest) ∧
        (.blank (keepApart name), before g quads rest) = r := by
  simp [Term.display_blank, readFlatTerm, afterEmptyBrackets?, readSimpleTerm, readBlankTerm, run_token]

/-! ### Literals -/

/-- The quotation mark behind a value is not taken for one of three. -/
private theorem readQuotation_escapeLiteral (value : String) {c : Char} (hc : c ≠ '"') (cs : List Char) :
    readQuotation ('"' :: (escapeLiteral value.toList ++ '"' :: c :: cs)) = some (value, c :: cs) := by
  have hread := readString_escapeLiteral value (c :: cs)
  generalize htext : escapeLiteral value.toList ++ '"' :: c :: cs = text at hread ⊢
  have hquotes : ∀ rest, text ≠ '"' :: '"' :: rest := by
    rintro rest rfl
    unfold escapeLiteral at htext
    split at htext <;> simp_all
  unfold readQuotation
  split
  · rename_i rest heq
    exact absurd (List.cons.inj heq).2 (hquotes rest)
  · rename_i heq
    simp at heq
  · rename_i heq
    rw [← (List.cons.inj heq).2, hread]
  · rename_i heq
    simp at heq
  · rename_i hquote _
    exact absurd rfl (hquote text)

/-- A literal is read if what follows its value is its tag, its datatype or nothing, and datatypes are read as IRIs. -/
private theorem run_readFlatTerm_literal {value : String} {l : Literal} {c : Char} {cs rest : List Char} (hc : c ≠ '"')
    (hend : ∀ readDatatype : List Char → Option (String × List Char),
      (∀ text ds, readDatatype (displayIri text ++ ds) = readIri none (displayIri text ++ ds)) →
        readLiteralEnd dropSpace readDatatype value (c :: cs) = some (l, rest)) :
    readFlatTerm.run (before g quads ('"' :: (escapeLiteral value.toList ++ '"' :: c :: cs))) =
      .ok (.literal l, before g quads rest) := by
  simp [readFlatTerm, afterEmptyBrackets?, readSimpleTerm, readQuotedLiteral, run_token,
    readQuotation_escapeLiteral value hc, hend, displayIri_append]

private theorem readsBack_readFlatTerm_literal {l : Literal} (h : (Term.literal l).IsValid) :
    ReadsBack readFlatTerm (.literal l) := by
  intro g quads tail htail
  have hspace : dropSpace (' ' :: tail) = tail := by rw [dropSpace_space, dropSpace_of_startsToken htail]
  rw [Term.isValid_literal] at h
  cases l with
  | plain value =>
    refine ⟨tail, dropSpace_of_startsToken htail, ?_⟩
    simp only [Term.display_literal, Literal.display, Literal.value, List.cons_append, List.append_assoc,
      List.nil_append]
    refine run_readFlatTerm_literal (by decide) fun readDatatype _ => ?_
    unfold readLiteralEnd
    rw [hspace]
    split
    · simp at htail
    · simp at htail
    · rfl
  | tagged value tag =>
    refine ⟨' ' :: tail, hspace, ?_⟩
    simp only [Term.display_literal, Literal.display, Literal.value, List.cons_append, List.append_assoc]
    refine run_readFlatTerm_literal (by decide) fun readDatatype _ => ?_
    have hmark : dropSpace ('@' :: (tag.toList ++ ' ' :: tail)) = '@' :: (tag.toList ++ ' ' :: tail) := rfl
    simp [readLiteralEnd, hmark, readTag_append h tail]
  | typed value datatype hne =>
    refine ⟨' ' :: tail, hspace, ?_⟩
    simp only [Term.display_literal, Literal.display, Literal.value, List.cons_append, List.append_assoc]
    refine run_readFlatTerm_literal (by decide) fun readDatatype hdatatype => ?_
    have hmark : dropSpace ('^' :: '^' :: (displayIri datatype ++ ' ' :: tail)) =
        '^' :: '^' :: (displayIri datatype ++ ' ' :: tail) := rfl
    have hiri : dropSpace (displayIri datatype ++ ' ' :: tail) = displayIri datatype ++ ' ' :: tail :=
      dropSpace_display (.iri datatype) (' ' :: tail)
    simp [readLiteralEnd, hmark, hiri, hdatatype, readIri_displayIri h, Literal.ofDatatype, hne]

/-! ### Terms in which nothing is nested -/

/-- An IRI, a blank node or a literal is read back. -/
theorem readsBack_readFlatTerm {t : Term} (hvalid : t.IsValid) (hflat : t.isIri ∨ t.isBlank ∨ t.isLiteral) {depth : Nat}
    (h : t.IsReadable depth) : ReadsBack readFlatTerm t := by
  intro g quads tail htail
  have hspace : dropSpace (' ' :: tail) = tail := by rw [dropSpace_space, dropSpace_of_startsToken htail]
  rcases hflat with hflat | hflat | hflat
  · obtain ⟨text, rfl⟩ := Term.isIri_iff.1 hflat
    exact ⟨' ' :: tail, hspace, run_readFlatTerm_iri (Term.isValid_iri.1 hvalid) _⟩
  · obtain ⟨label, rfl⟩ := Term.isBlank_iff.1 hflat
    have hlabel := readLabel_append (Term.isValid_blank.1 hvalid) h tail
    exact ⟨' ' :: tail, hspace, run_readFlatTerm_blank.2 ⟨label, _, hlabel, rfl⟩⟩
  · obtain ⟨l, rfl⟩ := Term.isLiteral_iff.1 hflat
    exact readsBack_readFlatTerm_literal hvalid g quads tail htail

/-- Of these only a blank node may not be read, if its label is not. -/
theorem breaksOff_readFlatTerm {t : Term} (hvalid : t.IsValid) (hflat : t.isIri ∨ t.isBlank ∨ t.isLiteral) {depth : Nat}
    (h : ¬t.IsReadable depth) : BreaksOff readFlatTerm t := by
  intro g quads tail t' p hread
  rcases hflat with hflat | hflat | hflat
  · obtain ⟨text, rfl⟩ := Term.isIri_iff.1 hflat
    exact absurd trivial h
  · obtain ⟨label, rfl⟩ := Term.isBlank_iff.1 hflat
    obtain ⟨name, rest, hlabel, heq⟩ := run_readFlatTerm_blank.1 hread
    exact ⟨rest, cutsLabel_of_readLabel (Term.isValid_blank.1 hvalid) h hlabel, (Prod.mk.inj heq).2.symm⟩
  · obtain ⟨l, rfl⟩ := Term.isLiteral_iff.1 hflat
    exact absurd trivial h

/-! ### Quoted triples -/

/-- A term inside a quoted triple. -/
def readPart (depth : Nat) : Reading Term := do
  match ← upcoming with
  | '<' :: '<' :: _ => readQuoted depth
  | _ => readFlatTerm

theorem readQuoted_succ (depth : Nat) :
    readQuoted (depth + 1) = do
      expect "<<"
      skip
      let s ← readPart depth
      if s.isLiteral then malformed
      skip
      let p ← readVerb
      skip
      let o ← readPart depth
      skip
      expect ">>"
      return .quoted s p o .defaultGraph :=
  rfl

private theorem run_readPart (depth : Nat) (cs : List Char) :
    (readPart depth).run (before g quads cs) =
      (match cs with
        | '<' :: '<' :: _ => readQuoted depth
        | _ => readFlatTerm).run (before g quads cs) :=
  rfl

/-- The text of an IRI, a blank node or a literal does not begin like that of a construct. -/
theorem startsConstruct_display {t : Term} (hvalid : t.IsValid) (hflat : t.isIri ∨ t.isBlank ∨ t.isLiteral)
    (cs : List Char) : startsConstruct (t.display ++ cs) = false := by
  rcases hflat with hflat | hflat | hflat
  · obtain ⟨text, rfl⟩ := Term.isIri_iff.1 hflat
    have hclean := noDelimiter_of_checkIri (Term.isValid_iri.1 hvalid)
    obtain ⟨c, hc, -⟩ := head_isAlpha_of_checkIri (Term.isValid_iri.1 hvalid)
    obtain ⟨ds, hds⟩ := List.head?_eq_some_iff.1 hc
    rw [hds, noDelimiter_cons] at hclean
    have hopen : c ≠ '<' := fun hc => hclean.1 (hc ▸ by decide)
    simp [Term.display_iri, displayIri_append, hds, startsConstruct, hopen]
  · obtain ⟨label, rfl⟩ := Term.isBlank_iff.1 hflat
    rfl
  · obtain ⟨l, rfl⟩ := Term.isLiteral_iff.1 hflat
    rfl

private theorem run_readPart_flat {t : Term} (hvalid : t.IsValid) (hflat : t.isIri ∨ t.isBlank ∨ t.isLiteral)
    (depth : Nat) (cs : List Char) :
    (readPart depth).run (before g quads (t.display ++ cs)) = readFlatTerm.run (before g quads (t.display ++ cs)) := by
  have hconstruct := startsConstruct_display hvalid hflat cs
  rw [run_readPart]
  split
  · rename_i heq
    rw [heq] at hconstruct
    cases hconstruct
  · rfl

private theorem readsBack_readPart_flat {t : Term} (hvalid : t.IsValid)
    (hflat : t.isIri ∨ t.isBlank ∨ t.isLiteral) {depth : Nat} (h : t.IsReadable depth) :
    ReadsBack (readPart depth) t :=
  (readsBack_readFlatTerm hvalid hflat h).congr fun _ _ => run_readPart_flat hvalid hflat depth

/-- What is read of a quoted triple behind its subject. -/
private def readBehindSubject (depth : Nat) (s : Term) : Reading Term := do
  skip
  let p ← readVerb
  skip
  let o ← readPart depth
  skip
  expect ">>"
  return .quoted s p o .defaultGraph

/-- A quoted triple is read as three terms between brackets, one level deeper. -/
private theorem run_readPart_quoted {s o : Term} {p : String} {depth : Nat} {tail : List Char} {r : Term × Progress} :
    (readPart (depth + 1)).run (before g quads ((Term.quoted s (.iri p) o .defaultGraph).display ++ tail)) = .ok r ↔
      ∃ s' p', (readPart depth).run (before g quads
          (s.display ++ ' ' :: (displayIri p ++ ' ' :: (o.display ++ ' ' :: '>' :: '>' :: tail)))) = .ok (s', p') ∧
        s'.isLiteral = false ∧ (readBehindSubject depth s').run p' = .ok r := by
  have hdisplay : (Term.quoted s (.iri p) o .defaultGraph).display ++ tail =
      '<' :: '<' :: ' ' :: (s.display ++ ' ' :: (displayIri p ++ ' ' :: (o.display ++ ' ' :: '>' :: '>' :: tail))) := by
    simp [Term.display_quoted, Term.display_iri, Term.isDefaultGraph]
  rw [hdisplay, run_readPart]
  simp [readQuoted_succ, readBehindSubject]

private theorem run_readBehindSubject {s o : Term} {p : String} (hp : checkIri p = .ok ()) {depth : Nat}
    {rest tail : List Char} (hrest : dropSpace rest = displayIri p ++ ' ' :: (o.display ++ tail))
    {r : Term × Progress} :
    (readBehindSubject depth s).run (before g quads rest) = .ok r ↔
      ∃ o' p', (readPart depth).run (before g quads (o.display ++ tail)) = .ok (o', p') ∧
        (do skip; expect ">>"; return .quoted s (.iri p) o' .defaultGraph : Reading Term).run p' = .ok r := by
  simp [readBehindSubject, hrest, run_readVerb hp]

/-- A term that can be a subject is not read as a literal. -/
theorem isLiteral_relabel {t : Term} (h : t.IsNode) (rename : String → String) :
    (t.relabel rename).isLiteral = false := by
  cases t with
  | literal l => exact h.elim
  | _ => rfl

/-- A term that can be written and read is read back. -/
theorem readsBack_readPart {t : Term} (ht : t.IsNode ∨ t.isLiteral) (hvalid : t.IsValid) {depth : Nat}
    (h : t.IsReadable depth) : ReadsBack (readPart depth) t := by
  induction t generalizing depth with
  | iri text => exact readsBack_readPart_flat hvalid (.inl rfl) h
  | blank label => exact readsBack_readPart_flat hvalid (.inr (.inl rfl)) h
  | literal l => exact readsBack_readPart_flat hvalid (.inr (.inr rfl)) h
  | var name => exact absurd ht (by simp [Term.IsNode, Term.isLiteral])
  | defaultGraph => exact absurd ht (by simp [Term.IsNode, Term.isLiteral])
  | quoted s p o g ihs _ iho _ =>
    obtain ⟨hs, hp, ho, hg⟩ := ht.resolve_right (by simp [Term.isLiteral])
    obtain ⟨vs, vp, vo, -⟩ := Term.isValid_quoted.1 hvalid
    obtain ⟨p, rfl⟩ := Term.isIri_iff.1 hp
    obtain rfl := Term.isDefaultGraph_iff.1 hg
    -- the brackets take one of the levels that are left
    cases depth with
    | zero => exact h.elim
    | succ depth =>
      obtain ⟨rs, -, ro, -⟩ := h
      intro g quads tail htail
      obtain ⟨afterSubject, hafterSubject, hsubject⟩ := ihs (.inl hs) vs rs g quads
        (displayIri p ++ ' ' :: (o.display ++ ' ' :: '>' :: '>' :: ' ' :: tail)) (startsToken_display (.iri p) _)
      obtain ⟨afterObject, hafterObject, hobject⟩ := iho ho vo ro g quads ('>' :: '>' :: ' ' :: tail) (by simp)
      refine ⟨' ' :: tail, by rw [dropSpace_space, dropSpace_of_startsToken htail], ?_⟩
      refine run_readPart_quoted.2 ⟨_, _, hsubject, isLiteral_relabel hs keepApart, ?_⟩
      refine (run_readBehindSubject (Term.isValid_iri.1 vp) hafterSubject).2 ⟨_, _, hobject, ?_⟩
      simp [hafterObject, Term.relabel]

/-- A term that can be written but not be read is not read as another one. -/
theorem breaksOff_readPart {t : Term} (ht : t.IsNode ∨ t.isLiteral) (hvalid : t.IsValid) {depth : Nat}
    (h : ¬t.IsReadable depth) : BreaksOff (readPart depth) t := by
  induction t generalizing depth with
  | iri text => exact absurd trivial h
  | literal l => exact absurd trivial h
  | var name => exact absurd trivial h
  | defaultGraph => exact absurd trivial h
  | blank label =>
    have hflat : (Term.blank label).isIri ∨ (Term.blank label).isBlank ∨ (Term.blank label).isLiteral := .inr (.inl rfl)
    exact (breaksOff_readFlatTerm hvalid hflat h).congr fun _ _ => run_readPart_flat hvalid hflat depth
  | quoted s p o g ihs _ iho _ =>
    obtain ⟨hs, hp, ho, hg⟩ := ht.resolve_right (by simp [Term.isLiteral])
    obtain ⟨vs, vp, vo, -⟩ := Term.isValid_quoted.1 hvalid
    obtain ⟨p, rfl⟩ := Term.isIri_iff.1 hp
    obtain rfl := Term.isDefaultGraph_iff.1 hg
    intro g quads tail t' p' hread
    cases depth with
    | zero => cases hread
    | succ depth =>
      obtain ⟨s', p₁, hsubject, -, hread⟩ := run_readPart_quoted.1 hread
      exfalso
      by_cases rs : s.IsReadable depth
      · -- then the object is not readable, and the brackets are not closed
        obtain ⟨rest, hrest, hback⟩ := readsBack_readPart (.inl hs) vs rs g quads
          (displayIri p ++ ' ' :: (o.display ++ ' ' :: '>' :: '>' :: ' ' :: tail)) (startsToken_display (.iri p) _)
        rw [hback] at hsubject
        obtain ⟨rfl, rfl⟩ := Prod.mk.inj (Except.ok.inj hsubject)
        obtain ⟨o', p₂, hobject, hread⟩ := (run_readBehindSubject (Term.isValid_iri.1 vp) hrest).1 hread
        obtain ⟨rest', hcut, rfl⟩ := iho ho vo (fun ro => h ⟨rs, trivial, ro, trivial⟩) _ _ _ _ _ hobject
        simp [hcut.dropSpace, hcut.not_prefix] at hread
      · obtain ⟨rest, hcut, rfl⟩ := ihs (.inl hs) vs rs _ _ _ _ _ hsubject
        simp [readBehindSubject, hcut.dropSpace, hcut.run_readVerb] at hread

/-! ### Terms of statements -/

theorem run_readTerm_of_startsConstruct {cs : List Char} (h : startsConstruct cs = false) (depth : Nat) :
    (readTerm depth).run (before g quads cs) = readFlatTerm.run (before g quads cs) := by
  cases depth with
  | zero => simp only [readTerm, run_bind_of_ok run_upcoming, h, Bool.false_eq_true, ↓reduceIte]
  | succ depth => simp only [readTerm, run_bind_of_ok run_upcoming, h, Bool.false_eq_true, ↓reduceIte]

/-- A term of a statement is read like one inside a quoted triple, as no other construct is written. -/
theorem run_readTerm {t : Term} (ht : t.IsNode ∨ t.isLiteral) (hvalid : t.IsValid) (depth : Nat) (cs : List Char) :
    (readTerm depth).run (before g quads (t.display ++ cs)) =
      (readPart depth).run (before g quads (t.display ++ cs)) := by
  by_cases hflat : t.isIri ∨ t.isBlank ∨ t.isLiteral
  · rw [run_readPart_flat hvalid hflat, run_readTerm_of_startsConstruct (startsConstruct_display hvalid hflat cs)]
  · cases t with
    | quoted s p o g' => cases depth <;> rfl
    | _ => simp_all [Term.isIri, Term.isBlank, Term.isLiteral, Term.IsNode]

theorem readsBack_readTerm {t : Term} (ht : t.IsNode ∨ t.isLiteral) (hvalid : t.IsValid) {depth : Nat}
    (h : t.IsReadable depth) : ReadsBack (readTerm depth) t :=
  (readsBack_readPart ht hvalid h).congr fun _ _ => run_readTerm ht hvalid depth

theorem breaksOff_readTerm {t : Term} (ht : t.IsNode ∨ t.isLiteral) (hvalid : t.IsValid) {depth : Nat}
    (h : ¬t.IsReadable depth) : BreaksOff (readTerm depth) t :=
  (breaksOff_readPart ht hvalid h).congr fun _ _ => run_readTerm ht hvalid depth

end RdfDataset.Document.Turtle
