import RdfDataset.Proofs.Document.Display

/-!
# Refusing lines

A quad that a format of lines can express, but with a label that cannot be read or with too many quoted triples in one
another, is not read as another quad: its line is refused.

* `Document.BreaksOff`: a reader does not read a term, or stops inside a label.  `breaksOff_readSubject` shows by
  induction that this happens to all terms that are not readable.
* `Document.readLine_display_eq_none`: the reader of lines does not go on behind such a stop.
-/

namespace RdfDataset

namespace Document

/-- A reader does not read a term from its text, or stops inside one of its labels. -/
def BreaksOff (read : List Char → Option (Term × List Char)) (t : Term) : Prop :=
  ∀ tail t' rest, read (t.display ++ ' ' :: tail) = some (t', rest) → CutsLabel rest

namespace CutsLabel

variable {cs : List Char}

theorem dropBlanks (h : CutsLabel cs) : dropBlanks cs = cs := by
  cases h with
  | colon cs => exact dropBlanks_cons (by decide) cs
  | stop hc cs => exact dropBlanks_cons (by decide) _

/-- No IRI and no quoted triple begins there, and none ends. -/
theorem head_ne_open (h : CutsLabel cs) (rest : List Char) : cs ≠ '<' :: rest := by
  cases h <;> simp

theorem head_ne_close (h : CutsLabel cs) (rest : List Char) : cs ≠ '>' :: rest := by
  cases h <;> simp

theorem readIri (h : CutsLabel cs) : readIri none cs = none := by
  unfold Document.readIri readReference
  split
  · exact absurd rfl (h.head_ne_open _)
  · rfl

/-- No graph is named there. -/
theorem readGraph {hasGraphs : Bool} {g : Term} {rest : List Char} (h : CutsLabel cs)
    (hread : readGraph hasGraphs cs = some (g, rest)) : CutsLabel rest := by
  unfold Document.readGraph readGraphName at hread
  split at hread
  · split at hread
    · rw [← (Prod.mk.inj (Option.some.inj hread)).2]
      exact h
    · unfold readNode at hread
      split at hread
      · cases h
      · rw [h.readIri] at hread
        cases hread
  · rw [← (Prod.mk.inj (Option.some.inj hread)).2]
    exact h

/-- The statement does not end there. -/
theorem isBlankLine (h : CutsLabel ('.' :: cs)) : isBlankLine cs = false := by
  cases h with
  | stop hc cs =>
    rcases List.mem_cons.1 hc with rfl | hc
    · simp [Document.isBlankLine, dropBlanks_cons]
    · obtain rfl := List.mem_singleton.1 hc
      simp [Document.isBlankLine, dropBlanks_cons]

end CutsLabel

/-! ### Terms -/

variable {readQuoted' : List Char → Option (Term × List Char)}

theorem breaksOff_readNode {label : String} (hcheck : checkBlank label = .ok ()) (h : ¬IsReadableLabel label) :
    BreaksOff readNode (.blank label) := by
  intro tail t rest hread
  simp only [Term.display_blank, List.cons_append, readNode] at hread
  obtain ⟨⟨name, rest'⟩, hlabel, heq⟩ := Option.map_eq_some_iff.1 hread
  rw [← (Prod.mk.inj heq).2]
  exact cutsLabel_of_readLabel hcheck h hlabel

/-- A term that is not read as a subject is not read as an object; literals are always readable. -/
theorem breaksOff_readObject {t : Term} (ht : t.IsNode ∨ t.isLiteral) {depth : Nat} (hreadable : ¬t.IsReadable depth)
    (h : t.IsNode → BreaksOff (readSubject readQuoted') t) : BreaksOff (readObject readQuoted') t := by
  rcases ht with hnode | hliteral
  · intro tail t' rest hread
    rw [readObject_display hnode] at hread
    exact h hnode tail t' rest hread
  · obtain ⟨l, rfl⟩ := Term.isLiteral_iff.1 hliteral
    exact absurd trivial hreadable

/-- The reader of three terms stops inside a label if subject or object is not readable: what is left there is no
predicate, and dropping blanks does not lead out of the label. -/
theorem cutsLabel_of_readTriple {s o : Term} {p : String} (hp : checkIri p = .ok ()) {depth : Nat}
    (hs : s.IsReadable depth → ReadsBack (readSubject readQuoted') s)
    (hs' : ¬s.IsReadable depth → BreaksOff (readSubject readQuoted') s)
    (ho' : ¬o.IsReadable depth → BreaksOff (readObject readQuoted') o)
    (h : ¬(s.IsReadable depth ∧ o.IsReadable depth)) {tail : List Char} {t : Triple Term} {rest : List Char}
    (hread : readTriple readQuoted' (s.display ++ ' ' :: (displayIri p ++ ' ' :: (o.display ++ ' ' :: tail))) =
      some (t, rest)) : CutsLabel rest := by
  simp only [readTriple, Option.bind_eq_bind, Option.bind_eq_some_iff, pure, Option.some.injEq, Prod.mk.injEq] at hread
  obtain ⟨⟨s', afterSubject⟩, hsubject, ⟨p', afterPredicate⟩, hpredicate, ⟨o', afterObject⟩, hobject, -, rfl⟩ := hread
  by_cases rs : s.IsReadable depth
  · obtain ⟨rest, hread, hrest⟩ := hs rs _ (endsLiteral_display (.iri p) (' ' :: (o.display ++ ' ' :: tail)))
    have hafter : afterSubject = rest := by
      rw [Term.display_iri, hsubject] at hread
      exact (Prod.mk.inj (Option.some.inj hread)).2
    rw [hafter, hrest, dropBlanks_display, Term.display_iri, readIri_displayIri hp] at hpredicate
    rw [← (Prod.mk.inj (Option.some.inj hpredicate)).2, dropBlanks_space, dropBlanks_display] at hobject
    have hcut := ho' (fun ro => h ⟨rs, ro⟩) _ _ _ hobject
    rw [hcut.dropBlanks]
    exact hcut
  · have hcut := hs' rs _ _ _ hsubject
    rw [hcut.dropBlanks, hcut.readIri] at hpredicate
    cases hpredicate

/-- A term that can be written but not be read is not read as a subject. -/
theorem breaksOff_readSubject {t : Term} (hnode : t.IsNode) (hvalid : t.IsValid) {depth : Nat}
    (h : ¬t.IsReadable depth) : BreaksOff (readSubject (readQuoted depth)) t := by
  induction t generalizing depth with
  | iri text => exact absurd trivial h
  | blank label =>
    intro tail t' rest hread
    rw [readSubject_display_of_isName hvalid (.inr rfl)] at hread
    exact breaksOff_readNode (Term.isValid_blank.1 hvalid) h tail t' rest hread
  | literal l => exact hnode.elim
  | var name => exact hnode.elim
  | defaultGraph => exact hnode.elim
  | quoted s p o g ihs _ iho _ =>
    obtain ⟨hs, hp, ho, hg⟩ := hnode
    obtain ⟨vs, vp, vo, -⟩ := Term.isValid_quoted.1 hvalid
    obtain ⟨p, rfl⟩ := Term.isIri_iff.1 hp
    obtain rfl := Term.isDefaultGraph_iff.1 hg
    intro tail t' rest hread
    cases depth with
    | zero => simp [Term.display_quoted, readSubject, readQuoted] at hread
    | succ depth =>
      obtain ⟨triple, htriple, -⟩ := readSubject_display_quoted.1 hread
      have hcut := cutsLabel_of_readTriple (Term.isValid_iri.1 vp) (readsBack_readSubject hs vs) (ihs hs vs)
        (fun ro => breaksOff_readObject ho ro fun ho => iho ho vo ro)
        (fun hterms => h ⟨hterms.1, trivial, hterms.2, trivial⟩) htriple
      -- so the brackets are not closed
      exact absurd rfl (hcut.head_ne_close _)

/-! ### Lines -/

/-- The reader breaks off at one of the terms of a triple that is not readable. -/
theorem cutsLabel_of_isWritable {format : Format} {q : Quad} (hwritable : q.IsWritable format) (hvalid : q.IsValid)
    (hreadable : ¬(q.subject.IsReadable maxDepth ∧ q.object.IsReadable maxDepth)) {t : Triple Term}
    {rest : List Char} (hread : readTriple (readQuoted maxDepth) q.display = some (t, rest)) : CutsLabel rest := by
  obtain ⟨hs, hp, ho, -⟩ := hwritable
  obtain ⟨vs, vp, vo, -⟩ := Quad.isValid_iff.1 hvalid
  obtain ⟨p, hp⟩ := Term.isIri_iff.1 hp
  rw [hp, Term.isValid_iri] at vp
  rw [display_quad, hp] at hread
  exact cutsLabel_of_readTriple vp (readsBack_readSubject hs vs) (breaksOff_readSubject hs vs)
    (fun ro => breaksOff_readObject ho ro fun ho => breaksOff_readSubject ho vo ro) hreadable hread

/-- The reader breaks off at the name of a graph that is not readable. -/
theorem cutsLabel_of_graphTail {format : Format} {g g' : Term} {rest : List Char}
    (hwritable : g.isDefaultGraph ∨ format.hasGraphs ∧ (g.isIri ∨ g.isBlank)) (hvalid : g.IsValid)
    (hreadable : ¬g.IsReadable maxDepth) (hread : readGraph format.hasGraphs (graphTail g) = some (g', rest)) :
    CutsLabel rest := by
  rcases hwritable with hg | ⟨hformat, hg | hg⟩
  · obtain rfl := Term.isDefaultGraph_iff.1 hg
    exact absurd trivial hreadable
  · obtain ⟨text, rfl⟩ := Term.isIri_iff.1 hg
    exact absurd trivial hreadable
  · obtain ⟨label, rfl⟩ := Term.isBlank_iff.1 hg
    simp only [readGraph, hformat, ↓reduceIte, graphTail, Term.isDefaultGraph, Bool.false_eq_true,
      readGraphName_display] at hread
    exact breaksOff_readNode (Term.isValid_blank.1 hvalid) hreadable ['.'] g' rest hread

/-- A quad that is not readable is not read from its line, nor is another one. -/
theorem readLine_display_eq_none {format : Format} {q : Quad} (hwritable : q.IsWritable format) (hvalid : q.IsValid)
    (hreadable : ¬q.IsReadable) : readLine format.hasGraphs q.display = none := by
  rw [Option.eq_none_iff_forall_ne_some]
  intro r hr
  rw [readLine_eq_some (isBlankLine_display_quad q), dropBlanks_display_quad] at hr
  obtain ⟨t, afterTriple, g, afterGraph, rest, htriple, hgraph, hend, hblank, -⟩ := hr
  have hcut : CutsLabel afterGraph := by
    by_cases hterms : q.subject.IsReadable maxDepth ∧ q.object.IsReadable maxDepth
    · rw [readTriple_of_isWritable hwritable hvalid hterms.1 hterms.2] at htriple
      obtain rfl := (Prod.mk.inj (Option.some.inj htriple)).2
      have hg : ¬q.graph.IsReadable maxDepth := by
        have hp := Term.isReadable_of_isIri hwritable.predicate maxDepth
        exact fun hg => hreadable ⟨hterms.1, hp, hterms.2, hg⟩
      exact cutsLabel_of_graphTail hwritable.graph (Quad.isValid_iff.1 hvalid).2.2.2 hg hgraph
    · exact (cutsLabel_of_isWritable hwritable hvalid hterms htriple).readGraph hgraph
  rw [hcut.dropBlanks] at hend
  rw [hend] at hcut
  exact absurd hblank (by simp [hcut.isBlankLine])

end Document

end RdfDataset
