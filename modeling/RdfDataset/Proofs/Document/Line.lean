import RdfDataset.Document.Line
import RdfDataset.Proofs.Document.Report
import RdfDataset.Proofs.Document.Writer

/-!
# What is read of a line

The terms on a line of an N-Triples or N-Quads document satisfy all conditions that their tokens give them.

* `Document.FromTokens`: such conditions on subjects and objects.  `of_readLine`: the terms of a statement satisfy them.
* `Term.IsReadable`: the labels of a term can be read, and its quoted triples are not too deep.
* `Document.isValid_of_readLines`, `isReadable_of_readLines` and `isWritable_of_readLines`: all quads that are read are
  valid, readable, and can be written in the same format.
-/

namespace RdfDataset

/-- All blank node labels of a term can be read, and at most `depth` of its quoted triples stand in one another. -/
def Term.IsReadable : Term → Nat → Prop
  | .blank label, _ => Document.IsReadableLabel label
  | .quoted .., 0 => False
  | .quoted s p o g, depth + 1 =>
    s.IsReadable depth ∧ p.IsReadable depth ∧ o.IsReadable depth ∧ g.IsReadable depth
  | _, _ => True

instance Term.decidableIsReadable : ∀ (t : Term) (depth : Nat), Decidable (t.IsReadable depth)
  | .blank label, _ => inferInstanceAs (Decidable (Document.IsReadableLabel label))
  | .quoted .., 0 => .isFalse not_false
  | .quoted s p o g, depth + 1 =>
    have := s.decidableIsReadable depth
    have := p.decidableIsReadable depth
    have := o.decidableIsReadable depth
    have := g.decidableIsReadable depth
    inferInstanceAs (Decidable (_ ∧ _ ∧ _ ∧ _))
  | .iri _, _ | .literal _, _ | .var _, _ | .defaultGraph, _ => .isTrue trivial

/-- The labels of a quad can be read, and there is room for its quoted triples. -/
def Quad.IsReadable (q : Quad) : Prop :=
  q.subject.IsReadable Document.maxDepth ∧ q.predicate.IsReadable Document.maxDepth ∧
    q.object.IsReadable Document.maxDepth ∧ q.graph.IsReadable Document.maxDepth

instance (q : Quad) : Decidable q.IsReadable :=
  inferInstanceAs (Decidable (_ ∧ _ ∧ _ ∧ _))

theorem Term.isReadable_of_isIri {t : Term} (h : t.isIri) (depth : Nat) : t.IsReadable depth := by
  obtain ⟨text, rfl⟩ := isIri_iff.1 h
  trivial

theorem Term.isReadable_of_isDefaultGraph {t : Term} (h : t.isDefaultGraph) (depth : Nat) : t.IsReadable depth := by
  obtain rfl := isDefaultGraph_iff.1 h
  trivial

namespace Document

/-- Conditions on subjects and objects, given how many quoted triples may be open, that follow from what the readers of
tokens give and go over to quoted triples. -/
structure FromTokens (S O : Nat → Term → Prop) : Prop where
  iri : ∀ depth text, S depth (.iri text)
  blank : ∀ depth label, IsReadableLabel label → S depth (.blank label)
  quoted : ∀ depth s p o, S depth s → O depth o → S (depth + 1) (.quoted s (.iri p) o .defaultGraph)
  literal : ∀ depth l, l.IsLowered → O depth (.literal l)
  object : ∀ depth t, S depth t → O depth t

section

variable {S O : Nat → Term → Prop}

theorem reads_readNode (h : FromTokens S O) (depth : Nat) :
    Reads readNode fun t => S depth t ∧ (t.isIri ∨ t.isBlank) := by
  intro cs t rest hread
  unfold readNode at hread
  split at hread
  · obtain ⟨⟨label, rest'⟩, hlabel, heq⟩ := Option.map_eq_some_iff.1 hread
    rw [← (Prod.mk.inj heq).1]
    exact ⟨h.blank depth label (reads_readLabel _ _ _ hlabel), .inr rfl⟩
  · obtain ⟨⟨iri, rest'⟩, -, heq⟩ := Option.map_eq_some_iff.1 hread
    rw [← (Prod.mk.inj heq).1]
    exact ⟨h.iri depth iri, .inl rfl⟩

theorem reads_readSubject (h : FromTokens S O) {depth : Nat} {readQuoted : List Char → Option (Term × List Char)}
    (hquoted : Reads readQuoted (S depth)) : Reads (readSubject readQuoted) (S depth) := by
  intro cs t rest hread
  unfold readSubject at hread
  split at hread
  · exact hquoted _ _ _ hread
  · exact (reads_readNode h depth _ _ _ hread).1

theorem reads_readObject (h : FromTokens S O) {depth : Nat} {readQuoted : List Char → Option (Term × List Char)}
    (hquoted : Reads readQuoted (S depth)) : Reads (readObject readQuoted) (O depth) := by
  intro cs t rest hread
  unfold readObject at hread
  split at hread
  · simp only [Option.bind_eq_bind, Option.bind_eq_some_iff, pure, Option.some.injEq, Prod.mk.injEq] at hread
    obtain ⟨⟨value, cs⟩, -, ⟨l, cs'⟩, hl, rfl, -⟩ := hread
    exact h.literal depth l (reads_readLiteralEnd _ _ _ _ _ _ hl)
  · exact h.object depth t (reads_readSubject h hquoted _ _ _ hread)

theorem reads_readTriple (h : FromTokens S O) {depth : Nat} {readQuoted : List Char → Option (Term × List Char)}
    (hquoted : Reads readQuoted (S depth)) :
    Reads (readTriple readQuoted) fun t => S depth t.subject ∧ t.predicate.isIri ∧ O depth t.object := by
  intro cs t rest hread
  simp only [readTriple, Option.bind_eq_bind, Option.bind_eq_some_iff, pure, Option.some.injEq, Prod.mk.injEq] at hread
  obtain ⟨⟨s, cs₁⟩, hs, ⟨p, cs₂⟩, -, ⟨o, cs₃⟩, ho, rfl, -⟩ := hread
  exact ⟨reads_readSubject h hquoted _ _ _ hs, rfl, reads_readObject h hquoted _ _ _ ho⟩

theorem reads_readQuoted (h : FromTokens S O) (depth : Nat) : Reads (readQuoted depth) (S depth) := by
  induction depth with
  | zero =>
    intro cs t rest hread
    cases hread
  | succ depth ih =>
    intro cs t rest hread
    simp only [readQuoted, Option.bind_eq_bind, Option.bind_eq_some_iff] at hread
    obtain ⟨⟨triple, cs'⟩, htriple, hread⟩ := hread
    obtain ⟨hs, hp, ho⟩ := reads_readTriple h ih _ _ _ htriple
    obtain ⟨p, hp⟩ := Term.isIri_iff.1 hp
    split at hread
    · rw [← (Prod.mk.inj (Option.some.inj hread)).1, hp]
      exact h.quoted depth _ p _ hs ho
    · cases hread

/-- The name of the graph of a statement, if the format has graphs. -/
def readGraph (hasGraphs : Bool) (cs : List Char) : Option (Term × List Char) :=
  if hasGraphs then readGraphName cs else some (.defaultGraph, cs)

/-- A statement ends with a full stop, behind which only a comment can follow. -/
private theorem endStatement_eq_some {cs : List Char} {r : Report} {found : Option Report} :
    (match dropBlanks cs with
      | '.' :: cs => if isBlankLine cs then some (some r) else none
      | _ => none) = some found ↔
      ∃ rest, dropBlanks cs = '.' :: rest ∧ isBlankLine rest = true ∧ some r = found := by
  split
  · rename_i heq
    simp [heq]
  · rename_i hne
    simp only [reduceCtorEq, false_iff, not_exists, not_and]
    exact fun rest heq => absurd heq (hne rest)

/-- A line that is not blank holds three terms, the name of a graph and a full stop, behind which only a comment can
follow. -/
theorem readLine_eq_some {hasGraphs : Bool} {line : List Char} (hline : isBlankLine line = false) {found : Option Report} :
    readLine hasGraphs line = some found ↔
      ∃ t afterTriple graph afterGraph rest, readTriple (readQuoted maxDepth) (dropBlanks line) = some (t, afterTriple) ∧
        readGraph hasGraphs afterTriple = some (graph, afterGraph) ∧ dropBlanks afterGraph = '.' :: rest ∧
        isBlankLine rest = true ∧ some ⟨t.subject, t.predicate, t.object, graph⟩ = found := by
  cases hasGraphs with
  | false =>
    simp only [readLine, readGraph, hline, Bool.false_eq_true, ↓reduceIte, Option.bind_eq_bind, Option.bind_some,
      Option.bind_eq_some_iff, Prod.exists, Option.some.injEq, Prod.mk.injEq, exists_and_left, ↓existsAndEq, and_true,
      true_and]
    exact exists_congr fun t => exists_congr fun cs => and_congr_right fun _ => endStatement_eq_some
  | true =>
    simp only [readLine, readGraph, hline, Bool.false_eq_true, ↓reduceIte, Option.bind_eq_bind,
      Option.bind_eq_some_iff, Prod.exists, exists_and_left]
    exact exists_congr fun t => exists_congr fun cs => and_congr_right fun _ =>
      exists_congr fun graph => exists_congr fun cs => and_congr_right fun _ => endStatement_eq_some

/-- The terms of a statement satisfy what their tokens give, and only a format with graphs names one. -/
theorem of_readLine (h : FromTokens S O) {hasGraphs : Bool} {line : List Char} {r : Report}
    (hread : readLine hasGraphs line = some (some r)) :
    S maxDepth r.subject ∧ r.predicate.isIri ∧ O maxDepth r.object ∧
      (r.graph.isDefaultGraph ∨ hasGraphs ∧ S maxDepth r.graph ∧ (r.graph.isIri ∨ r.graph.isBlank)) := by
  have hline : isBlankLine line = false := by
    by_contra hline
    rw [Bool.not_eq_false] at hline
    simp [readLine, hline] at hread
  obtain ⟨t, afterTriple, graph, afterGraph, rest, ht, hgraph, -, -, hr⟩ := (readLine_eq_some hline).1 hread
  obtain ⟨hs, hp, ho⟩ := reads_readTriple h (reads_readQuoted h maxDepth) _ _ _ ht
  have hg : graph.isDefaultGraph ∨ hasGraphs ∧ S maxDepth graph ∧ (graph.isIri ∨ graph.isBlank) := by
    unfold readGraph readGraphName at hgraph
    split at hgraph
    · rename_i hgraphs
      split at hgraph
      · rw [← (Prod.mk.inj (Option.some.inj hgraph)).1]
        exact .inl rfl
      · exact .inr ⟨hgraphs, reads_readNode h maxDepth _ _ _ hgraph⟩
    · rw [← (Prod.mk.inj (Option.some.inj hgraph)).1]
      exact .inl rfl
  rw [← Option.some.inj hr]
  exact ⟨hs, hp, ho, hg⟩

end

/-! ### Documents -/

private theorem fromTokens_isLowered : FromTokens (fun _ => Term.IsLowered) fun _ => Term.IsLowered where
  iri _ _ := trivial
  blank _ _ _ := trivial
  quoted _ _ _ _ hs ho := ⟨hs, trivial, ho, trivial⟩
  literal _ _ h := h
  object _ _ h := h

/-- The language tags of a reported statement have been read. -/
theorem isLowered_of_readLine {hasGraphs : Bool} {line : List Char} {r : Report}
    (hread : readLine hasGraphs line = some (some r)) : r.IsLowered := by
  obtain ⟨hs, hp, ho, hg⟩ := of_readLine fromTokens_isLowered hread
  have hp : r.predicate.IsLowered := by
    obtain ⟨p, hp⟩ := Term.isIri_iff.1 hp
    rw [hp]
    trivial
  have hg : r.graph.IsLowered := by
    rcases hg with hg | ⟨-, hg, -⟩
    · rw [Term.isDefaultGraph_iff.1 hg]
      trivial
    · exact hg
  exact ⟨hs, hp, ho, hg⟩

theorem readLine_of_mem_convertLine {hasGraphs : Bool} {line : List Char} {quads : List Quad}
    (h : convertLine hasGraphs line = .ok quads) {q : Quad} (hq : q ∈ quads) :
    readLine hasGraphs line = some (some q.report) ∧ q.IsValid := by
  unfold convertLine at h
  split at h
  · cases h
  · rw [← Except.ok.inj h] at hq
    cases hq
  · rename_i r hread
    simp only [map_eq_ok, mapError_eq_ok] at h
    obtain ⟨q', hconvert, rfl⟩ := h
    rw [List.mem_singleton.1 hq, ← (isLowered_of_readLine hread).eq_of_convert hconvert]
    exact ⟨hread, Report.isValid_of_convert hconvert⟩

/-- A quad of a document is the statement on one of its lines, and its terms are valid. -/
theorem exists_readLine_of_mem {hasGraphs : Bool} {text : List Char} {quads : List Quad}
    (h : readLines hasGraphs text = .ok quads) {q : Quad} (hq : q ∈ quads) :
    ∃ line, readLine hasGraphs line = some (some q.report) ∧ q.IsValid := by
  obtain ⟨pieces, hpieces, rfl⟩ := map_eq_ok.1 h
  obtain ⟨piece, hpiece, hq⟩ := List.mem_flatten.1 hq
  obtain ⟨line, -, hline⟩ := exists_of_mem_mapM hpieces hpiece
  exact ⟨line, readLine_of_mem_convertLine hline hq⟩

/-- The quads of a document of lines are valid. -/
theorem isValid_of_readLines {hasGraphs : Bool} {text : List Char} {quads : List Quad}
    (h : readLines hasGraphs text = .ok quads) : ∀ q ∈ quads, q.IsValid := by
  intro q hq
  obtain ⟨-, -, hvalid⟩ := exists_readLine_of_mem h hq
  exact hvalid

private theorem fromTokens_isReadable :
    FromTokens (fun depth t => t.IsReadable depth) fun depth t => t.IsReadable depth where
  iri _ _ := trivial
  blank _ _ h := h
  quoted _ _ _ _ hs ho := ⟨hs, trivial, ho, trivial⟩
  literal _ _ _ := trivial
  object _ _ h := h

/-- The quads of a document of lines have readable labels and are not too deep. -/
theorem isReadable_of_readLines {hasGraphs : Bool} {text : List Char} {quads : List Quad}
    (h : readLines hasGraphs text = .ok quads) : ∀ q ∈ quads, q.IsReadable := by
  intro q hq
  obtain ⟨line, hline, -⟩ := exists_readLine_of_mem h hq
  obtain ⟨hs, hp, ho, hg⟩ := of_readLine fromTokens_isReadable hline
  refine ⟨hs, Term.isReadable_of_isIri hp maxDepth, ho, ?_⟩
  rcases hg with hg | ⟨-, hg, -⟩
  · exact Term.isReadable_of_isDefaultGraph hg maxDepth
  · exact hg

private theorem fromTokens_isNode : FromTokens (fun _ => Term.IsNode) fun _ t => t.IsNode ∨ t.isLiteral where
  iri _ _ := trivial
  blank _ _ _ := trivial
  quoted _ _ _ _ hs ho := ⟨hs, rfl, ho, rfl⟩
  literal _ _ _ := .inr rfl
  object _ _ h := .inl h

/-- The quads of a document of lines can be written in its format. -/
theorem isWritable_of_readLines {format : Format} {text : List Char} {quads : List Quad}
    (h : readLines format.hasGraphs text = .ok quads) : ∀ q ∈ quads, q.IsWritable format := by
  intro q hq
  obtain ⟨line, hline, -⟩ := exists_readLine_of_mem h hq
  obtain ⟨hs, hp, ho, hg⟩ := of_readLine fromTokens_isNode hline
  exact ⟨hs, hp, ho, hg.imp_right fun hg => ⟨hg.1, hg.2.2⟩⟩

end Document

end RdfDataset
