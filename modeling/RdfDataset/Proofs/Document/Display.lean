import RdfDataset.Proofs.Document.Line

/-!
# Reading back lines

A quad that a format of lines can express is read back from its line, as long as the reader can read its labels and has
room for its quoted triples.

* `Document.ReadsBack`: a term is read from its text, wherever that stands on a line.
  `readsBack_readSubject` shows it by induction on the term, along with the depth that is left for quoted triples.
* `Document.readLine_display`: a quad is read from its line.
-/

namespace RdfDataset

namespace Document

/-! ### Blanks -/

@[simp]
theorem dropBlanks_space (cs : List Char) : dropBlanks (' ' :: cs) = dropBlanks cs := by
  simp [dropBlanks]

theorem dropBlanks_cons {c : Char} (hc : c ∉ [' ', '\t']) (cs : List Char) : dropBlanks (c :: cs) = c :: cs := by
  simp only [List.mem_cons, not_or] at hc
  simp [dropBlanks, hc]

@[simp]
theorem dropBlanks_dropBlanks (cs : List Char) : dropBlanks (dropBlanks cs) = dropBlanks cs :=
  List.dropWhile_idempotent _ cs

/-- The text of a term begins with no white space, comment, full stop, tag, datatype or closing bracket. -/
theorem exists_display_eq_cons (t : Term) :
    ∃ c ∉ [' ', '\t', '#', '.', '@', '^', '\n', '\r', '>'], ∃ cs, t.display = c :: cs := by
  cases t with
  | iri text => exact ⟨'<', by decide, _, rfl⟩
  | blank label => exact ⟨'_', by decide, _, rfl⟩
  | literal l => exact ⟨'"', by decide, _, rfl⟩
  | var name => exact ⟨'?', by decide, _, rfl⟩
  | defaultGraph => exact ⟨'D', by decide, _, rfl⟩
  | quoted s p o g => exact ⟨'<', by decide, _, rfl⟩

@[simp]
theorem dropBlanks_display (t : Term) (cs : List Char) : dropBlanks (t.display ++ cs) = t.display ++ cs := by
  obtain ⟨c, hc, ds, hds⟩ := exists_display_eq_cons t
  simp only [List.mem_cons, not_or] at hc
  rw [hds]
  exact dropBlanks_cons (by simp [hc]) _

/-- What follows the value of a literal, if it is not to be taken for its tag or its datatype. -/
def EndsLiteral (cs : List Char) : Prop :=
  ∀ c ∈ (dropBlanks cs).head?, c ∉ ['@', '^']

theorem endsLiteral_cons {c : Char} (hc : c ∉ [' ', '\t', '@', '^']) (cs : List Char) : EndsLiteral (c :: cs) := by
  simp only [List.mem_cons, not_or] at hc
  rw [EndsLiteral, dropBlanks_cons (by simp [hc])]
  simp [hc]

theorem endsLiteral_display (t : Term) (cs : List Char) : EndsLiteral (t.display ++ cs) := by
  obtain ⟨c, hc, ds, hds⟩ := exists_display_eq_cons t
  simp only [List.mem_cons, not_or] at hc
  rw [hds]
  exact endsLiteral_cons (by simp [hc]) _

/-! ### Terms -/

/-- A term is read from its text in front of a space.  What is left is what follows, up to blanks: the reader of a
literal drops them in its search for a tag. -/
def ReadsBack (read : List Char → Option (Term × List Char)) (t : Term) : Prop :=
  ∀ tail, EndsLiteral tail → ∃ rest, read (t.display ++ ' ' :: tail) = some (t, rest) ∧ dropBlanks rest = dropBlanks tail

variable {readQuoted' : List Char → Option (Term × List Char)}

/-- An IRI or a blank node is read back. -/
theorem readNode_display {t : Term} (hvalid : t.IsValid) (hname : t.isIri ∨ t.isBlank) {depth : Nat}
    (h : t.IsReadable depth) (tail : List Char) :
    readNode (t.display ++ ' ' :: tail) = some (t, ' ' :: tail) := by
  rcases hname with hname | hname
  · obtain ⟨text, rfl⟩ := Term.isIri_iff.1 hname
    have hread := readIri_displayIri (Term.isValid_iri.1 hvalid) (' ' :: tail)
    simp only [Term.display_iri, displayIri, List.cons_append, List.append_assoc, List.nil_append] at hread ⊢
    simp [readNode, hread]
  · obtain ⟨label, rfl⟩ := Term.isBlank_iff.1 hname
    have hread := readLabel_append (Term.isValid_blank.1 hvalid) h tail
    simp [Term.display_blank, readNode, hread]

/-- The text of an IRI or a blank node does not begin like that of a quoted triple. -/
theorem readSubject_display_of_isName {t : Term} (hvalid : t.IsValid) (hname : t.isIri ∨ t.isBlank) (cs : List Char) :
    readSubject readQuoted' (t.display ++ cs) = readNode (t.display ++ cs) := by
  rcases hname with hname | hname
  · obtain ⟨text, rfl⟩ := Term.isIri_iff.1 hname
    have hclean := noDelimiter_of_checkIri (Term.isValid_iri.1 hvalid)
    obtain ⟨c, hc, -⟩ := head_isAlpha_of_checkIri (Term.isValid_iri.1 hvalid)
    obtain ⟨ds, hds⟩ := List.head?_eq_some_iff.1 hc
    rw [hds, noDelimiter_cons] at hclean
    have hopen : c ≠ '<' := fun hc => hclean.1 (hc ▸ by decide)
    simp [Term.display_iri, displayIri, hds, readSubject, hopen]
  · obtain ⟨label, rfl⟩ := Term.isBlank_iff.1 hname
    simp [Term.display_blank, readSubject]

/-- The text of a term that can be a subject does not begin like that of a literal. -/
theorem readObject_display {t : Term} (hnode : t.IsNode) (cs : List Char) :
    readObject readQuoted' (t.display ++ cs) = readSubject readQuoted' (t.display ++ cs) := by
  cases t with
  | iri text => simp [Term.display_iri, displayIri, readObject]
  | blank label => simp [Term.display_blank, readObject]
  | quoted s p o g => simp [Term.display_quoted, readObject]
  | literal l => exact hnode.elim
  | var name => exact hnode.elim
  | defaultGraph => exact hnode.elim

/-- A quoted triple is read as three terms between brackets, one level deeper. -/
theorem readSubject_display_quoted {depth : Nat} {s o t' : Term} {p : String} {tail rest : List Char} :
    readSubject (readQuoted (depth + 1)) ((Term.quoted s (.iri p) o .defaultGraph).display ++ tail) =
        some (t', rest) ↔
      ∃ t, readTriple (readQuoted depth)
          (s.display ++ ' ' :: (displayIri p ++ ' ' :: (o.display ++ ' ' :: '>' :: '>' :: tail))) =
            some (t, '>' :: '>' :: rest) ∧
        .quoted t.subject t.predicate t.object .defaultGraph = t' := by
  have hdisplay : (Term.quoted s (.iri p) o .defaultGraph).display ++ tail =
      '<' :: '<' :: ' ' :: (s.display ++ ' ' :: (displayIri p ++ ' ' :: (o.display ++ ' ' :: '>' :: '>' :: tail))) := by
    simp [Term.display_quoted, Term.display_iri, Term.isDefaultGraph]
  simp only [hdisplay, readSubject, readQuoted, dropBlanks_space, dropBlanks_display, Option.bind_eq_bind,
    Option.bind_eq_some_iff]
  constructor
  · rintro ⟨⟨t, cs⟩, htriple, h⟩
    dsimp only at h
    split at h
    · obtain ⟨rfl, rfl⟩ := Prod.mk.inj (Option.some.inj h)
      exact ⟨t, htriple, rfl⟩
    · cases h
  · rintro ⟨t, htriple, rfl⟩
    exact ⟨_, htriple, rfl⟩

/-- An IRI or a blank node is read back as a subject. -/
theorem readsBack_readSubject_of_isName {t : Term} (hvalid : t.IsValid) (hname : t.isIri ∨ t.isBlank) {depth : Nat}
    (h : t.IsReadable depth) : ReadsBack (readSubject readQuoted') t := by
  intro tail _
  refine ⟨' ' :: tail, ?_, dropBlanks_space tail⟩
  rw [readSubject_display_of_isName hvalid hname, readNode_display hvalid hname h]

/-- A literal is read back with its value and its tag or datatype. -/
theorem readsBack_readObject_literal {l : Literal} (hvalid : (Term.literal l).IsValid) :
    ReadsBack (readObject readQuoted') (.literal l) := by
  intro tail htail
  rw [Term.isValid_literal] at hvalid
  cases l with
  | plain value =>
    refine ⟨dropBlanks tail, ?_, dropBlanks_dropBlanks tail⟩
    have hend : readLiteralEnd dropBlanks (readIri none) value (' ' :: tail) = some (.plain value, dropBlanks tail) := by
      unfold readLiteralEnd
      rw [dropBlanks_space]
      split
      · rename_i heq
        exact absurd (htail '@' (by simp [heq])) (by decide)
      · rename_i heq
        exact absurd (htail '^' (by simp [heq])) (by decide)
      · rfl
    simp [Term.display_literal, Literal.display, Literal.value, readObject, readString_escapeLiteral, hend]
  | tagged value tag =>
    refine ⟨' ' :: tail, ?_, dropBlanks_space tail⟩
    have hend : readLiteralEnd dropBlanks (readIri none) value ('@' :: (tag.toList ++ ' ' :: tail)) =
        some (.tagged value tag, ' ' :: tail) := by
      simp [readLiteralEnd, dropBlanks_cons, readTag_append hvalid tail]
    simp [Term.display_literal, Literal.display, Literal.value, readObject, readString_escapeLiteral, hend]
  | typed value datatype hne =>
    refine ⟨' ' :: tail, ?_, dropBlanks_space tail⟩
    have hdatatype : dropBlanks (displayIri datatype ++ ' ' :: tail) = displayIri datatype ++ ' ' :: tail :=
      dropBlanks_display (.iri datatype) (' ' :: tail)
    have hend : readLiteralEnd dropBlanks (readIri none) value ('^' :: '^' :: (displayIri datatype ++ ' ' :: tail)) =
        some (.typed value datatype hne, ' ' :: tail) := by
      simp [readLiteralEnd, dropBlanks_cons, hdatatype, readIri_displayIri hvalid, Literal.ofDatatype, hne]
    simp [Term.display_literal, Literal.display, Literal.value, readObject, readString_escapeLiteral, hend]

/-- What is read back as a subject is read back as an object, and literals are. -/
theorem readsBack_readObject {t : Term} (ht : t.IsNode ∨ t.isLiteral) (hvalid : t.IsValid)
    (h : t.IsNode → ReadsBack (readSubject readQuoted') t) : ReadsBack (readObject readQuoted') t := by
  rcases ht with hnode | hliteral
  · intro tail htail
    obtain ⟨rest, hread, hrest⟩ := h hnode tail htail
    exact ⟨rest, by rw [readObject_display hnode, hread], hrest⟩
  · obtain ⟨l, rfl⟩ := Term.isLiteral_iff.1 hliteral
    exact readsBack_readObject_literal hvalid

/-- Three terms are read back if subject and object are. -/
theorem readTriple_display {s o : Term} {p : String} (hs : ReadsBack (readSubject readQuoted') s)
    (hp : checkIri p = .ok ()) (ho : ReadsBack (readObject readQuoted') o) {tail : List Char}
    (htail : EndsLiteral tail) :
    readTriple readQuoted' (s.display ++ ' ' :: (displayIri p ++ ' ' :: (o.display ++ ' ' :: tail))) =
      some (⟨s, .iri p, o⟩, dropBlanks tail) := by
  obtain ⟨afterSubject, hsubject, hrest⟩ :=
    hs (displayIri p ++ ' ' :: (o.display ++ ' ' :: tail)) (endsLiteral_display (.iri p) _)
  obtain ⟨afterObject, hobject, hrest'⟩ := ho tail htail
  have hpredicate : dropBlanks (displayIri p ++ ' ' :: (o.display ++ ' ' :: tail)) =
      displayIri p ++ ' ' :: (o.display ++ ' ' :: tail) := dropBlanks_display (.iri p) _
  rw [hpredicate] at hrest
  simp [readTriple, hsubject, hrest, readIri_displayIri hp, hobject, hrest']

/-- A term that can be written and read is read back as a subject. -/
theorem readsBack_readSubject {t : Term} (hnode : t.IsNode) (hvalid : t.IsValid) {depth : Nat}
    (h : t.IsReadable depth) : ReadsBack (readSubject (readQuoted depth)) t := by
  induction t generalizing depth with
  | iri text => exact readsBack_readSubject_of_isName hvalid (.inl rfl) h
  | blank label => exact readsBack_readSubject_of_isName hvalid (.inr rfl) h
  | literal l => exact hnode.elim
  | var name => exact hnode.elim
  | defaultGraph => exact hnode.elim
  | quoted s p o g ihs _ iho _ =>
    obtain ⟨hs, hp, ho, hg⟩ := hnode
    obtain ⟨vs, vp, vo, -⟩ := Term.isValid_quoted.1 hvalid
    obtain ⟨p, rfl⟩ := Term.isIri_iff.1 hp
    obtain rfl := Term.isDefaultGraph_iff.1 hg
    -- the brackets take one of the levels that are left
    cases depth with
    | zero => exact h.elim
    | succ depth =>
      obtain ⟨rs, -, ro, -⟩ := h
      have hsubject := ihs hs vs rs
      have hobject : ReadsBack (readObject (readQuoted depth)) o :=
        readsBack_readObject ho vo fun ho => iho ho vo ro
      intro tail _
      have hclose : EndsLiteral ('>' :: '>' :: ' ' :: tail) := endsLiteral_cons (by decide) _
      have htriple := readTriple_display hsubject (Term.isValid_iri.1 vp) hobject hclose
      rw [dropBlanks_cons (by decide)] at htriple
      exact ⟨' ' :: tail, readSubject_display_quoted.2 ⟨_, htriple, rfl⟩, dropBlanks_space tail⟩

/-! ### Lines -/

/-- A line on which a term stands is not empty. -/
theorem isBlankLine_display (t : Term) (cs : List Char) : isBlankLine (t.display ++ cs) = false := by
  obtain ⟨c, hc, ds, hds⟩ := exists_display_eq_cons t
  simp only [List.mem_cons, not_or] at hc
  rw [hds, List.cons_append, isBlankLine, dropBlanks_cons (by simp [hc])]
  split
  · rename_i heq
    cases heq
  · rename_i heq
    exact absurd (List.cons.inj heq).1 hc.2.2.1
  · rfl

/-- Where a term stands, no full stop does. -/
theorem readGraphName_display (t : Term) (cs : List Char) :
    readGraphName (t.display ++ cs) = readNode (t.display ++ cs) := by
  obtain ⟨c, hc, ds, hds⟩ := exists_display_eq_cons t
  simp only [List.mem_cons, not_or] at hc
  rw [hds]
  unfold readGraphName
  split
  · rename_i heq
    exact absurd (List.cons.inj heq).1 hc.2.2.2.1
  · rfl

/-- What stands behind the three terms of a quad on its line: the name of its graph, unless that is the default graph,
and a full stop. -/
def graphTail (g : Term) : List Char :=
  if g.isDefaultGraph then ['.'] else g.display ++ [' ', '.']

theorem display_quad (q : Quad) :
    q.display =
      q.subject.display ++ ' ' :: (q.predicate.display ++ ' ' :: (q.object.display ++ ' ' :: graphTail q.graph)) := by
  by_cases hg : q.graph.isDefaultGraph <;> simp [Quad.display, graphTail, hg]

theorem endsLiteral_graphTail (g : Term) : EndsLiteral (graphTail g) := by
  unfold graphTail
  split
  · exact endsLiteral_cons (by decide) _
  · exact endsLiteral_display g _

theorem dropBlanks_graphTail (g : Term) : dropBlanks (graphTail g) = graphTail g := by
  unfold graphTail
  split
  · exact dropBlanks_cons (by decide) _
  · exact dropBlanks_display g _

theorem isBlankLine_display_quad (q : Quad) : isBlankLine q.display = false := by
  rw [display_quad]
  exact isBlankLine_display _ _

theorem dropBlanks_display_quad (q : Quad) : dropBlanks q.display = q.display := by
  rw [display_quad]
  exact dropBlanks_display _ _

/-- Subject, predicate and object of a quad are read back. -/
theorem readTriple_of_isWritable {format : Format} {q : Quad} (hwritable : q.IsWritable format) (hvalid : q.IsValid)
    (rs : q.subject.IsReadable maxDepth) (ro : q.object.IsReadable maxDepth) :
    readTriple (readQuoted maxDepth) q.display = some (⟨q.subject, q.predicate, q.object⟩, graphTail q.graph) := by
  obtain ⟨hs, hp, ho, -⟩ := hwritable
  obtain ⟨vs, vp, vo, -⟩ := Quad.isValid_iff.1 hvalid
  obtain ⟨p, hp⟩ := Term.isIri_iff.1 hp
  rw [hp, Term.isValid_iri] at vp
  have hobject := readsBack_readObject ho vo fun ho => readsBack_readSubject ho vo ro
  have htriple := readTriple_display (readsBack_readSubject hs vs rs) vp hobject (endsLiteral_graphTail q.graph)
  rw [dropBlanks_graphTail] at htriple
  rw [display_quad, hp]
  exact htriple

/-- The graph of a quad is read back, and nothing but the full stop is left. -/
theorem readGraph_graphTail {format : Format} {g : Term}
    (hwritable : g.isDefaultGraph ∨ format.hasGraphs ∧ (g.isIri ∨ g.isBlank)) (hvalid : g.IsValid)
    (hreadable : g.IsReadable maxDepth) :
    ∃ rest, readGraph format.hasGraphs (graphTail g) = some (g, rest) ∧ dropBlanks rest = ['.'] := by
  rcases hwritable with hg | ⟨hformat, hname⟩
  · obtain rfl := Term.isDefaultGraph_iff.1 hg
    refine ⟨['.'], ?_, dropBlanks_cons (by decide) []⟩
    cases hformat : format.hasGraphs <;> rfl
  · have hnamed : g.isDefaultGraph = false := by
      rcases hname with hname | hname
      · obtain ⟨text, rfl⟩ := Term.isIri_iff.1 hname
        rfl
      · obtain ⟨label, rfl⟩ := Term.isBlank_iff.1 hname
        rfl
    refine ⟨[' ', '.'], ?_, by rw [dropBlanks_space, dropBlanks_cons (by decide)]⟩
    have hnode := readNode_display hvalid hname hreadable ['.']
    simp [readGraph, graphTail, hformat, hnamed, readGraphName_display, hnode]

/-- A quad is read back from its line. -/
theorem readLine_display {format : Format} {q : Quad} (hwritable : q.IsWritable format) (hvalid : q.IsValid)
    (hreadable : q.IsReadable) : readLine format.hasGraphs q.display = some (some q.report) := by
  obtain ⟨rs, -, ro, rg⟩ := hreadable
  have htriple := readTriple_of_isWritable hwritable hvalid rs ro
  obtain ⟨rest, hgraph, hrest⟩ := readGraph_graphTail hwritable.graph (Quad.isValid_iff.1 hvalid).2.2.2 rg
  rw [readLine_eq_some (isBlankLine_display_quad q), dropBlanks_display_quad]
  exact ⟨_, _, _, rest, [], htriple, hgraph, hrest, rfl, rfl⟩

end Document

end RdfDataset
