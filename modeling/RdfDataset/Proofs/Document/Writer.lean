import RdfDataset.Proofs.Document.Statement

/-!
# What can be written

* `Term.IsNode` and `Quad.IsWritable`: the terms and quads that a format can express.
* `Format.write_eq_ok`: quads are written exactly if the format can express each of them.
-/

namespace RdfDataset

/-- An IRI, a blank node, or a quoted triple whose predicate is an IRI and whose subject and object are such terms
again, the object possibly a literal. -/
def Term.IsNode : Term → Prop
  | .iri _ | .blank _ => True
  | .quoted s p o g => s.IsNode ∧ p.isIri ∧ (o.IsNode ∨ o.isLiteral) ∧ g.isDefaultGraph
  | _ => False

/-- A quad that a format can express. -/
structure Quad.IsWritable (format : Format) (q : Quad) : Prop where
  subject : q.subject.IsNode
  predicate : q.predicate.isIri
  object : q.object.IsNode ∨ q.object.isLiteral
  graph : q.graph.isDefaultGraph ∨ format.hasGraphs ∧ (q.graph.isIri ∨ q.graph.isBlank)

namespace Term

theorem isIri_iff {t : Term} : t.isIri ↔ ∃ text, t = .iri text := by
  cases t <;> simp [isIri]

theorem isBlank_iff {t : Term} : t.isBlank ↔ ∃ label, t = .blank label := by
  cases t <;> simp [isBlank]

theorem isLiteral_iff {t : Term} : t.isLiteral ↔ ∃ l, t = .literal l := by
  cases t <;> simp [isLiteral]

theorem isDefaultGraph_iff {t : Term} : t.isDefaultGraph ↔ t = .defaultGraph := by
  cases t <;> simp [isDefaultGraph]

theorem checkPredicate_eq_ok {t : Term} : t.checkPredicate = .ok () ↔ t.isIri := by
  cases t <;> simp [checkPredicate, isIri]

theorem checkGraph_eq_ok {t : Term} : t.checkGraph = .ok () ↔ t.isDefaultGraph ∨ t.isIri ∨ t.isBlank := by
  cases t <;> simp [checkGraph, isDefaultGraph, isIri, isBlank]

theorem checkQuotedGraph_eq_ok {t : Term} : t.checkQuotedGraph = .ok () ↔ t.isDefaultGraph := by
  cases t <;> simp [checkQuotedGraph, isDefaultGraph]

/-- Only in the place of an object a literal is accepted as well. -/
theorem checkNode_eq_ok {t : Term} {place : Place} :
    t.checkNode place = .ok () ↔ t.IsNode ∨ place = .object ∧ t.isLiteral := by
  induction t generalizing place with
  | iri text => simp [checkNode, IsNode]
  | blank label => simp [checkNode, IsNode]
  | literal l => by_cases hplace : place = .object <;> simp [checkNode, IsNode, isLiteral, hplace]
  | var name => simp [checkNode, IsNode, isLiteral]
  | defaultGraph => simp [checkNode, IsNode, isLiteral]
  | quoted s p o g ihs _ iho _ =>
    simp only [checkNode, check_bind_eq_ok, checkQuotedGraph_eq_ok, checkPredicate_eq_ok, ihs, iho, IsNode]
    simp only [reduceCtorEq, false_and, or_false, true_and, isLiteral, Bool.false_eq_true, and_false]
    tauto

end Term

theorem Quad.checkWritable_eq_ok {q : Quad} :
    q.checkWritable = .ok () ↔ q.subject.IsNode ∧ q.predicate.isIri ∧ (q.object.IsNode ∨ q.object.isLiteral) ∧
      (q.graph.isDefaultGraph ∨ q.graph.isIri ∨ q.graph.isBlank) := by
  simp only [checkWritable, check_bind_eq_ok, Term.checkGraph_eq_ok, Term.checkPredicate_eq_ok, Term.checkNode_eq_ok,
    reduceCtorEq, false_and, or_false, true_and]
  tauto

namespace Format

/-- In a format without graphs, all quads have to be in the default graph. -/
theorem checkGraphs_eq_ok {format : Format} {quads : List Quad} :
    format.checkGraphs quads = .ok () ↔ ∀ q ∈ quads, q.graph.isDefaultGraph ∨ format.hasGraphs := by
  unfold checkGraphs
  split
  · rename_i hgraphs
    simp [hgraphs]
  · rename_i hgraphs
    split
    · rename_i q hfind
      have hmem := List.mem_of_find?_eq_some hfind
      have hnamed := List.find?_some hfind
      simp only [reduceCtorEq, false_iff, not_forall]
      exact ⟨q, hmem, by simpa [hgraphs] using hnamed⟩
    · rename_i hfind
      simpa [hgraphs] using hfind

/-- A format can express a quad that passes the check, if it has graphs or the quad is in the default graph. -/
theorem isWritable_iff {format : Format} {q : Quad} :
    q.IsWritable format ↔ (q.graph.isDefaultGraph ∨ format.hasGraphs) ∧ q.checkWritable = .ok () := by
  rw [Quad.checkWritable_eq_ok]
  constructor
  · rintro ⟨hs, hp, ho, hg⟩
    exact ⟨by tauto, hs, hp, ho, by tauto⟩
  · rintro ⟨hgraphs, hs, hp, ho, hg⟩
    exact ⟨hs, hp, ho, by tauto⟩

/-- Quads are written exactly if the format can express each of them. -/
theorem write_eq_ok {format : Format} {quads : List Quad} {text : String} :
    format.write quads = .ok text ↔
      (∀ q ∈ quads, q.IsWritable format) ∧ text = String.ofList (format.layout quads) := by
  simp only [write_eq, List.forM_eq_forM, check_bind_eq_ok, checkGraphs_eq_ok, forM_eq_ok, pure_eq_ok, isWritable_iff,
    forall_and]
  tauto

end Format

end RdfDataset
