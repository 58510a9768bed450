import RdfDataset.Document.Writer
import RdfDataset.Proofs.Result

/-!
# Statements and quads

The statement of a quad says what the quad says, and its text is made of the texts that its terms are shown as.  So all
that is written can be said of quads and terms alone.

* `Quad.checkWritable` fails as turning a quad into a statement does; `Quad.checked_toStatement` says so.
* `Statement.quad` is the quad of a statement, which tells it from all others; `Node.write_eq` is its text.
* `Format.layout` is the text of some quads; `Format.layout_map_quad` says that it is that of their statements.
* `Format.write_eq` puts them together.
-/

namespace RdfDataset

open Document

/-! ### Checks -/

namespace Term

/-- A predicate has to be an IRI. -/
def checkPredicate : Term → Except WriteError Unit
  | .iri _ => .ok ()
  | t => .error (.unsupported t .predicate)

/-- A graph is the default graph or named by an IRI or a blank node. -/
def checkGraph : Term → Except WriteError Unit
  | .defaultGraph | .iri _ | .blank _ => .ok ()
  | t => .error (.unsupported t .graph)

/-- A subject or object is an IRI, a blank node or a quoted triple all of whose terms can be written.  An object can
also be a literal. -/
def checkNode (place : Place) : Term → Except WriteError Unit
  | .iri _ | .blank _ => .ok ()
  | .quoted s p o g => do
    g.checkQuotedGraph
    p.checkPredicate
    s.checkNode .subject
    o.checkNode .object
  | .literal l => if place = .object then .ok () else .error (.unsupported (.literal l) place)
  | t => .error (.unsupported t place)

end Term

/-- The first term of a quad that cannot be written in its place, in the order graph, predicate, subject, object. -/
def Quad.checkWritable (q : Quad) : Except WriteError Unit := do
  q.graph.checkGraph
  q.predicate.checkPredicate
  q.subject.checkNode .subject
  q.object.checkNode .object

/-! ### Layout -/

namespace Document

/-- A line for each quad. -/
def writeLines (quads : List Quad) : List Char :=
  quads.flatMap fun q => q.display ++ ['\n']

/-- Subject, predicate and object with spaces between them. -/
def writeTriple (q : Quad) : List Char :=
  q.subject.display ++ ' ' :: q.predicate.display ++ ' ' :: q.object.display

/-- The first statement of a graph, behind the name of the graph and an opening brace if it has a name. -/
def openGraph (q : Quad) : List Char :=
  (if q.graph.isDefaultGraph then [] else q.graph.display ++ " \x7b\n\t".toList) ++ writeTriple q

/-- The end of a graph behind its last statement. -/
def closeGraph (last : Quad) : List Char :=
  " .\n".toList ++ if last.graph.isDefaultGraph then [] else "\x7d\n".toList

/-- A statement of the same graph as the last one.  A subject that is a quoted triple is always written again. -/
def writeNext (indent : List Char) (last q : Quad) : List Char :=
  if last.subject = q.subject ∧ !q.subject.isQuoted then
    if last.predicate = q.predicate then " , ".toList ++ q.object.display
    else " ;\n".toList ++ indent ++ '\t' :: q.predicate.display ++ ' ' :: q.object.display
  else " .\n".toList ++ indent ++ writeTriple q

/-- The statements behind the last one that has been written. -/
def writeAfter (indent : List Char) (last : Quad) : List Quad → List Char
  | [] => closeGraph last
  | q :: quads =>
    (if last.graph = q.graph then writeNext indent last q else closeGraph last ++ openGraph q)
      ++ writeAfter indent q quads

/-- Statements in groups of the same graph, subject and predicate. -/
def writeGroups (indent : List Char) : List Quad → List Char
  | [] => []
  | q :: quads => openGraph q ++ writeAfter indent q quads

end Document

/-- The text of some quads in a format that can express them. -/
def Format.layout : Format → List Quad → List Char
  | .nTriples | .nQuads => Document.writeLines
  | .turtle => Document.writeGroups []
  | .triG => Document.writeGroups ['\t']

/-! ### What is said by a statement -/

namespace Document

/-- The term of a name. -/
def Name.term : Name → Term
  | .iri text => .iri text
  | .blank label => .blank label

/-- The literal that is written. -/
def Value.toLiteral : Value → Literal
  | .simple value => .plain value
  | .tagged value language => .tagged value language
  | .typed value datatype h => .typed value datatype h

/-- The term of a node. -/
def Node.term : Node → Term
  | .name n => n.term
  | .literal v => .literal v.toLiteral
  | .triple s p o => .quoted s.term (.iri p) o.term .defaultGraph

/-- The term that stands for the graph of a statement. -/
def graphTerm : Option Name → Term
  | none => .defaultGraph
  | some name => name.term

/-- The quad that a statement is made of. -/
def Statement.quad (t : Statement) : Quad :=
  ⟨t.subject.term, .iri t.predicate, t.object.term, graphTerm t.graph⟩

theorem Name.term_injective : Function.Injective Name.term := by
  intro n n' h
  cases n <;> cases n' <;> simp_all [Name.term]

theorem Value.toLiteral_injective : Function.Injective Value.toLiteral := by
  intro v v' h
  cases v <;> cases v' <;> simp_all [Value.toLiteral]

theorem Node.isQuoted_term (n : Node) : n.term.isQuoted = n.isTriple := by
  cases n with
  | name n => cases n <;> rfl
  | literal v => rfl
  | triple s p o => rfl

/-- Different nodes are made of different terms. -/
theorem Node.term_injective : Function.Injective Node.term := by
  intro n n' h
  induction n generalizing n' with
  | name n =>
    cases n' with
    | name n' => rw [Name.term_injective h]
    | literal v => cases n <;> cases h
    | triple s p o => cases n <;> cases h
  | literal v =>
    cases n' with
    | name n' => cases n' <;> cases h
    | literal v' => rw [Value.toLiteral_injective (Term.literal.inj h)]
    | triple s p o => cases h
  | triple s p o ihs iho =>
    cases n' with
    | name n' => cases n' <;> cases h
    | literal v => cases h
    | triple s' p' o' =>
      obtain ⟨hs, hp, ho, -⟩ := Term.quoted.inj h
      rw [ihs hs, Term.iri.inj hp, iho ho]

theorem graphTerm_injective : Function.Injective graphTerm := by
  intro g g' h
  cases g with
  | none =>
    cases g' with
    | none => rfl
    | some n => cases n <;> cases h
  | some n =>
    cases g' with
    | none => cases n <;> cases h
    | some n' => rw [Name.term_injective h]

theorem isDefaultGraph_graphTerm (graph : Option Name) : (graphTerm graph).isDefaultGraph = graph.isNone := by
  cases graph with
  | none => rfl
  | some name => cases name <;> rfl

end Document

/-! ### Turning quads into statements -/

theorem Literal.toLiteral_toValue (l : Literal) : l.toValue.toLiteral = l := by
  cases l with
  | plain value => rfl
  | tagged value tag => rfl
  | typed value datatype h => simp [toValue, Literal.tag, Literal.datatype, Literal.value, h, Value.toLiteral]

namespace Term

variable (t : Term)

theorem checked_toPredicate : Checked t.checkPredicate (fun text => .iri text = t) t.toPredicate := by
  cases t <;> simp [Checked, checkPredicate, toPredicate]

theorem checked_toGraph : Checked t.checkGraph (fun graph => graphTerm graph = t) t.toGraph := by
  cases t <;> simp [Checked, checkGraph, toGraph, graphTerm, Name.term]

theorem checked_checkQuotedGraph : Checked t.checkQuotedGraph (fun _ => t = .defaultGraph) t.checkQuotedGraph := by
  cases t <;> simp [Checked, checkQuotedGraph]

/-- A node is made of its term, which is looked at as the check does. -/
theorem checked_toNode (place : Place) : Checked (t.checkNode place) (fun n => n.term = t) (t.toNode place) := by
  induction t generalizing place with
  | iri text => exact .pure rfl
  | blank label => exact .pure rfl
  | var name => rfl
  | defaultGraph => rfl
  | literal l =>
    by_cases hplace : place = .object
    · rw [checkNode, toNode, if_pos hplace, if_pos hplace]
      exact .pure (congrArg Term.literal l.toLiteral_toValue)
    · rw [checkNode, toNode, if_neg hplace, if_neg hplace]
      rfl
  | quoted s p o g ihs _ iho _ =>
    rw [checkNode, toNode, ← bind_pure_unit (x := o.checkNode .object)]
    refine g.checked_checkQuotedGraph.bind fun _ hg => p.checked_toPredicate.bind fun predicate hp =>
      (ihs .subject).bind fun subject hs => (iho .object).bind fun object ho => .pure ?_
    rw [Node.term, hs, hp, ho, hg]

end Term

/-- The statement of a quad is made of this quad. -/
theorem Quad.checked_toStatement (q : Quad) : Checked q.checkWritable (fun t => t.quad = q) q.toStatement := by
  rw [checkWritable, toStatement, ← bind_pure_unit (x := q.object.checkNode .object)]
  refine q.graph.checked_toGraph.bind fun graph hg => q.predicate.checked_toPredicate.bind fun predicate hp =>
    (q.subject.checked_toNode .subject).bind fun subject hs => (q.object.checked_toNode .object).bind fun object ho =>
      .pure ?_
  simp only [Statement.quad, hg, hp, hs, ho]

/-! ### Two ways to write -/

namespace Term

theorem display_iri (text : String) : (Term.iri text).display = displayIri text :=
  rfl

theorem display_blank (label : String) : (Term.blank label).display = '_' :: ':' :: label.toList :=
  rfl

theorem display_literal (l : Literal) : (Term.literal l).display = l.display :=
  rfl

theorem display_var (name : String) : (Term.var name).display = '?' :: name.toList :=
  rfl

theorem display_defaultGraph : Term.defaultGraph.display = ['D', 'E', 'F', 'A', 'U', 'L', 'T'] :=
  rfl

theorem display_quoted (s p o g : Term) :
    (Term.quoted s p o g).display = '<' :: '<' :: ' ' :: (s.display ++ ' ' :: (p.display ++ ' ' :: (o.display ++
      ((if g.isDefaultGraph then [] else ' ' :: g.display) ++ [' ', '>', '>'])))) := by
  show "<< ".toList ++ s.display ++ ' ' :: p.display ++ ' ' :: o.display
    ++ (if g.isDefaultGraph then [] else ' ' :: g.display) ++ " >>".toList = _
  simp

end Term

namespace Document

theorem flatMap_writeChar (cs : List Char) : cs.flatMap writeChar = escapeLiteral cs := by
  fun_induction escapeLiteral cs with
  | case1 => rfl
  | case2 cs ih => simp [writeChar, ih]
  | case3 cs ih => simp [writeChar, ih]
  | case4 cs ih => simp [writeChar, ih]
  | case5 cs ih => simp [writeChar, ih]
  | case6 c cs hquote hbackslash hnewline hreturn ih =>
    have hc : writeChar c = [c] := by
      unfold writeChar
      split
      · exact (hnewline rfl).elim
      · exact (hreturn rfl).elim
      · exact (hquote rfl).elim
      · exact (hbackslash rfl).elim
      · rfl
    simp [hc, ih]

theorem writeString_eq (text : String) : writeString text = '"' :: escapeLiteral text.toList ++ ['"'] := by
  rw [writeString, flatMap_writeChar]

theorem Name.write_eq (n : Name) : n.write = n.term.display := by
  cases n <;> rfl

theorem Value.write_eq (v : Value) : v.write = v.toLiteral.display := by
  cases v with
  | simple value => simp [Value.write, toLiteral, Literal.display, Literal.value, writeString_eq]
  | tagged value language => simp [Value.write, toLiteral, Literal.display, Literal.value, writeString_eq]
  | typed value datatype h =>
    simp [Value.write, toLiteral, Literal.display, Literal.value, writeString_eq, writeIri, displayIri]

/-- A node is written as its term is shown. -/
theorem Node.write_eq (n : Node) : n.write = n.term.display := by
  induction n with
  | name n => exact n.write_eq
  | literal v => exact v.write_eq
  | triple s p o ihs iho =>
    simp [Node.write, term, Term.display_quoted, Term.display_iri, Term.isDefaultGraph, ihs, iho, writeIri, displayIri]

namespace Statement

variable (t : Statement)

theorem writeTriple_eq : t.writeTriple = Document.writeTriple t.quad := by
  rw [Statement.writeTriple, Document.writeTriple, Node.write_eq, Node.write_eq]
  rfl

/-- With a full stop behind it a statement is written as its quad is shown. -/
theorem write_eq : t.write ++ " .".toList = t.quad.display := by
  obtain ⟨s, p, o, g⟩ := t
  cases g with
  | none =>
    simp [Statement.write, writeTriple_eq, Document.writeTriple, Quad.display, quad, graphTerm, Term.isDefaultGraph]
  | some name =>
    have hname := isDefaultGraph_graphTerm (some name)
    simp only [graphTerm, Option.isNone_some] at hname
    simp [Statement.write, writeTriple_eq, Document.writeTriple, Quad.display, quad, graphTerm, hname, Name.write_eq]

theorem openGraph_eq : t.openGraph = Document.openGraph t.quad := by
  obtain ⟨s, p, o, g⟩ := t
  cases g with
  | none => simp [Statement.openGraph, Document.openGraph, writeTriple_eq, quad, graphTerm, Term.isDefaultGraph]
  | some name =>
    have hname := isDefaultGraph_graphTerm (some name)
    simp only [graphTerm, Option.isNone_some] at hname
    simp [Statement.openGraph, Document.openGraph, writeTriple_eq, quad, graphTerm, hname, Name.write_eq]

theorem closeGraph_eq : t.closeGraph = Document.closeGraph t.quad := by
  have hgraph := isDefaultGraph_graphTerm t.graph
  cases h : t.graph with
  | none => simp [Statement.closeGraph, Document.closeGraph, quad, h, graphTerm, Term.isDefaultGraph]
  | some name =>
    rw [h] at hgraph
    simp [Statement.closeGraph, Document.closeGraph, quad, h, hgraph]

/-- Two statements have the same subject or predicate if their quads have. -/
theorem writeNext_eq (indent : List Char) (last : Statement) :
    writeNext indent last t = Document.writeNext indent last.quad t.quad := by
  have hsubject : last.subject = t.subject ↔ last.quad.subject = t.quad.subject :=
    Node.term_injective.eq_iff.symm
  have hpredicate : last.predicate = t.predicate ↔ last.quad.predicate = t.quad.predicate :=
    Term.iri.injEq _ _ ▸ Iff.rfl
  have hquoted : t.quad.subject.isQuoted = t.subject.isTriple := t.subject.isQuoted_term
  have hobject : t.quad.object.display = t.object.write := t.object.write_eq.symm
  have hiri : t.quad.predicate.display = writeIri t.predicate := rfl
  rw [Statement.writeNext, Document.writeNext, writeTriple_eq]
  simp only [hsubject, hpredicate, hquoted, hobject, hiri]

theorem writeAfter_eq (indent : List Char) (last : Statement) (statements : List Statement) :
    writeAfter indent last statements = Document.writeAfter indent last.quad (statements.map quad) := by
  induction statements generalizing last with
  | nil => exact last.closeGraph_eq
  | cons t statements ih =>
    have hgraph : last.graph = t.graph ↔ last.quad.graph = t.quad.graph := graphTerm_injective.eq_iff.symm
    rw [Statement.writeAfter, List.map_cons, Document.writeAfter, ih, writeNext_eq, closeGraph_eq, openGraph_eq]
    simp only [hgraph]

theorem writeGroups_eq (indent : List Char) (statements : List Statement) :
    writeGroups indent statements = Document.writeGroups indent (statements.map quad) := by
  cases statements with
  | nil => rfl
  | cons t statements =>
    rw [Statement.writeGroups, List.map_cons, Document.writeGroups, openGraph_eq, writeAfter_eq]

end Statement

end Document

namespace Format

/-- The text of statements is that of their quads.  N-Triples writes no graph, so that there must be none. -/
theorem layout_map_quad {format : Format} {statements : List Statement}
    (h : format.hasGraphs ∨ ∀ t ∈ statements, t.graph = none) :
    format.layout (statements.map Statement.quad) = format.text statements := by
  have hlines : (statements.flatMap fun t => t.write ++ " .\n".toList) = writeLines (statements.map Statement.quad) := by
    rw [writeLines, List.flatMap_map]
    refine List.flatMap_congr fun t _ => ?_
    rw [← t.write_eq]
    simp
  cases format with
  | turtle => exact (Statement.writeGroups_eq _ _).symm
  | triG => exact (Statement.writeGroups_eq _ _).symm
  | nQuads => exact hlines.symm
  | nTriples =>
    refine hlines.symm.trans (List.flatMap_congr fun t ht => ?_)
    rw [Statement.write, h.resolve_left (by simp [hasGraphs]) t ht]

theorem graph_eq_none_of_checkGraphs {format : Format} {quads : List Quad} (h : format.checkGraphs quads = .ok ())
    {statements : List Statement} (hquads : statements.map Statement.quad = quads) :
    format.hasGraphs ∨ ∀ t ∈ statements, t.graph = none := by
  subst hquads
  unfold checkGraphs at h
  split at h
  · exact .inl ‹_›
  · right
    intro t ht
    split at h
    · cases h
    · rename_i hfind
      have hdefault := List.find?_eq_none.1 hfind t.quad (List.mem_map_of_mem ht)
      have hgraph := isDefaultGraph_graphTerm t.graph
      simp_all [Statement.quad]

/-- Writing quads is checking them and laying them out. -/
theorem write_eq (format : Format) (quads : List Quad) :
    format.write quads = do
      format.checkGraphs quads
      quads.forM Quad.checkWritable
      return String.ofList (format.layout quads) := by
  have hchecked := Checked.mapM Quad.checked_toStatement quads
  rw [write, List.forM_eq_forM]
  cases hgraphs : format.checkGraphs quads with
  | error e => rfl
  | ok _ =>
    cases hcheck : forM quads Quad.checkWritable with
    | error e =>
      rw [hcheck] at hchecked
      have herror : quads.mapM Quad.toStatement = .error e := hchecked
      rw [herror]
      rfl
    | ok _ =>
      rw [hcheck] at hchecked
      obtain ⟨statements, hstatements, hquads⟩ := hchecked
      have hmap : statements.map Statement.quad = quads := by
        rw [← List.forall₂_eq_eq_eq, List.forall₂_map_left_iff]
        exact hquads.flip
      rw [hstatements]
      change Except.ok _ = Except.ok _
      rw [← layout_map_quad (graph_eq_none_of_checkGraphs hgraphs hmap), hmap]

end Format

end RdfDataset
