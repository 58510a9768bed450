import RdfDataset.Proofs.Document.Writer

/-!
# What cannot be written

The terms of a quad are looked at one by one, those of a quoted triple in its place, and the first that cannot stand where
it does is reported.  Before that, a format without graphs refuses quads that are in one.

* `Place.accepts`: the terms that can stand in a place; `Quad.inspected`: the terms of a quad in the order in which they
  are looked at.
* `Quad.checkWritable_eq`: a check reports the first term that is not accepted.
* `Format.checkGraphs_eq_error` and `Format.write_eq_error`: the graphs are looked at first.
* `Format.write_exact`: which quads are written, and what is reported of others.
-/

namespace RdfDataset

/-- The terms that can stand in a place.  Quoted triples are looked at term by term. -/
def Place.accepts : Place → Term → Bool
  | .subject, t => t.isIri || t.isBlank
  | .predicate, t => t.isIri
  | .object, t => t.isIri || t.isBlank || t.isLiteral
  | .graph, t => t.isDefaultGraph || t.isIri || t.isBlank
  | .quotedGraph, t => t.isDefaultGraph

/-- The terms to be looked at in a place: of a quoted triple the graph, the predicate, and what is to be looked at in
the subject and in the object. -/
def Term.inspected (place : Place) : Term → List (Term × Place)
  | .quoted s p o g =>
    [(g, .quotedGraph)] ++ ([(p, .predicate)] ++ (s.inspected .subject ++ o.inspected .object))
  | t => [(t, place)]

/-- The terms of a quad to be looked at: graph, predicate, subject and object. -/
def Quad.inspected (q : Quad) : List (Term × Place) :=
  [(q.graph, .graph)] ++ ([(q.predicate, .predicate)] ++ (q.subject.inspected .subject ++ q.object.inspected .object))

/-- A quoted triple is looked at before the object behind it, its graph first. -/
example : Quad.inspected ⟨.quoted (.iri "a:s") (.iri "a:p") (.var "o") .defaultGraph, .iri "a:q", .var "x",
    .iri "a:g"⟩ =
    [(.iri "a:g", .graph), (.iri "a:q", .predicate), (.defaultGraph, .quotedGraph), (.iri "a:p", .predicate),
      (.iri "a:s", .subject), (.var "o", .object), (.var "x", .object)] := by
  rfl

/-- The outcome of looking at some terms in order: the first that is not accepted is an error. -/
def verdict (ts : List (Term × Place)) : Except WriteError Unit :=
  match ts.find? fun x => !x.2.accepts x.1 with
  | none => .ok ()
  | some (t, place) => .error (.unsupported t place)

/-- Terms are looked at after others that have been accepted. -/
theorem verdict_append (ts us : List (Term × Place)) : verdict (ts ++ us) = verdict ts >>= fun _ => verdict us := by
  unfold verdict
  rw [List.find?_append]
  cases ts.find? fun x => !x.2.accepts x.1 <;> rfl

theorem verdict_eq_error {ts : List (Term × Place)} {e : WriteError} :
    verdict ts = .error e ↔ ∃ before t place after, ts = before ++ (t, place) :: after ∧
      (∀ x ∈ before, x.2.accepts x.1 = true) ∧ place.accepts t = false ∧ e = .unsupported t place := by
  unfold verdict
  constructor
  · intro h
    split at h
    · cases h
    · rename_i t place hfind
      obtain ⟨hrefused, before, after, rfl, hbefore⟩ := List.find?_eq_some_iff_append.1 hfind
      exact ⟨before, t, place, after, rfl, fun x hx => by simpa using hbefore x hx, by simpa using hrefused,
        (Except.error.inj h).symm⟩
  · rintro ⟨before, t, place, after, rfl, hbefore, hrefused, rfl⟩
    have hfind : (before ++ (t, place) :: after).find? (fun x => !x.2.accepts x.1) = some (t, place) :=
      List.find?_eq_some_iff_append.2 ⟨by simp [hrefused], before, after, rfl, fun x hx => by simp [hbefore x hx]⟩
    rw [hfind]

namespace Term

theorem checkPredicate_eq (t : Term) : t.checkPredicate = verdict [(t, .predicate)] := by
  cases t <;> rfl

theorem checkGraph_eq (t : Term) : t.checkGraph = verdict [(t, .graph)] := by
  cases t <;> rfl

theorem checkQuotedGraph_eq (t : Term) : t.checkQuotedGraph = verdict [(t, .quotedGraph)] := by
  cases t <;> rfl

/-- The check of a subject or an object follows the order of the terms. -/
theorem checkNode_eq (t : Term) {place : Place} (hplace : place = .subject ∨ place = .object) :
    t.checkNode place = verdict (t.inspected place) := by
  induction t generalizing place with
  | quoted s p o g ihs _ iho _ =>
    rw [checkNode, inspected, verdict_append, verdict_append, verdict_append, checkQuotedGraph_eq, checkPredicate_eq,
      ihs (.inl rfl), iho (.inr rfl)]
  | iri _ | blank _ | literal _ | var _ | defaultGraph => rcases hplace with rfl | rfl <;> rfl

end Term

/-- The check of a quad follows the order of its terms. -/
theorem Quad.checkWritable_eq (q : Quad) : q.checkWritable = verdict q.inspected := by
  rw [checkWritable, inspected, verdict_append, verdict_append, verdict_append, Term.checkGraph_eq,
    Term.checkPredicate_eq, Term.checkNode_eq _ (.inl rfl), Term.checkNode_eq _ (.inr rfl)]

namespace Format

/-- A format without graphs refuses the first quad that is in one. -/
theorem checkGraphs_eq_error {format : Format} {quads : List Quad} {e : WriteError} :
    format.checkGraphs quads = .error e ↔
      format.hasGraphs = false ∧ ∃ (before : List Quad) (q : Quad) (after : List Quad), quads = before ++ q :: after ∧
        (∀ other ∈ before, other.graph = .defaultGraph) ∧ q.graph ≠ .defaultGraph ∧ e = .namedGraph q.graph := by
  have hfind : ∀ {q : Quad}, quads.find? (!·.graph.isDefaultGraph) = some q ↔ ∃ before after,
      quads = before ++ q :: after ∧ (∀ other ∈ before, other.graph = .defaultGraph) ∧ q.graph ≠ .defaultGraph := by
    intro q
    rw [List.find?_eq_some_iff_append]
    simp only [Bool.not_not, Bool.not_eq_true', ← Bool.not_eq_true, Term.isDefaultGraph_iff]
    tauto
  unfold checkGraphs
  cases format.hasGraphs with
  | true => simp
  | false =>
    simp only [Bool.false_eq_true, if_false, true_and]
    constructor
    · intro h
      split at h
      · rename_i q hq
        obtain ⟨before, after, heq, hbefore, hgraph⟩ := hfind.1 hq
        exact ⟨before, q, after, heq, hbefore, hgraph, (Except.error.inj h).symm⟩
      · cases h
    · rintro ⟨before, q, after, heq, hbefore, hgraph, rfl⟩
      rw [hfind.2 ⟨before, after, heq, hbefore, hgraph⟩]

/-- Nothing is written if the graphs are refused, or else some quad is. -/
theorem write_eq_error {format : Format} {quads : List Quad} {e : WriteError} :
    format.write quads = .error e ↔ format.checkGraphs quads = .error e ∨
      (format.hasGraphs = true ∨ ∀ q ∈ quads, q.graph = .defaultGraph) ∧ forM quads Quad.checkWritable = .error e := by
  have hgraphs : format.checkGraphs quads = .ok () ↔
      format.hasGraphs = true ∨ ∀ q ∈ quads, q.graph = .defaultGraph := by
    rw [checkGraphs_eq_ok]
    cases format.hasGraphs <;> simp [Term.isDefaultGraph_iff]
  rw [write_eq, check_bind_eq_error, check_bind_eq_error, List.forM_eq_forM, hgraphs]
  simp [pure, Except.pure]

/-- For every format and all quads: they are written exactly if the format can express each of them.  Otherwise, if the
format has no graphs and some quad is in one, the error is the graph of the first such quad, whatever comes before it.
In all other cases it is, of the first quad that cannot be expressed, the first term that cannot stand in its place, when
graph, predicate, subject and object are looked at in this order, and quoted triples in the same way. -/
theorem write_exact (format : Format) (quads : List Quad) :
    ((∃ text, format.write quads = .ok text) ↔ ∀ q ∈ quads, q.IsWritable format) ∧
    ∀ e, format.write quads = .error e ↔
      (format.hasGraphs = false ∧ ∃ (before : List Quad) (q : Quad) (after : List Quad), quads = before ++ q :: after ∧
        (∀ other ∈ before, other.graph = .defaultGraph) ∧ q.graph ≠ .defaultGraph ∧ e = .namedGraph q.graph) ∨
      ((format.hasGraphs = true ∨ ∀ q ∈ quads, q.graph = .defaultGraph) ∧
        ∃ (before : List Quad) (q : Quad) (after : List Quad), quads = before ++ q :: after ∧
          (∀ other ∈ before, other.IsWritable format) ∧ ¬q.IsWritable format ∧
          ∃ passed t place rest, q.inspected = passed ++ (t, place) :: rest ∧
            (∀ x ∈ passed, x.2.accepts x.1 = true) ∧ place.accepts t = false ∧ e = .unsupported t place) := by
  constructor
  · simp only [write_eq_ok, exists_and_left, exists_eq, and_true]
  · intro e
    rw [write_eq_error, checkGraphs_eq_error, forM_eq_error]
    refine or_congr_right (and_congr_right fun hallowed => ?_)
    simp only [← verdict_eq_error, ← Quad.checkWritable_eq]
    refine exists₃_congr fun before q after => and_congr_right fun heq => ?_
    subst heq
    -- no quad is refused for its graph alone, so that the check of its terms decides
    have hchecked : ∀ other ∈ before ++ q :: after,
        (other.IsWritable format ↔ other.checkWritable = .ok ()) := by
      intro other hother
      rw [isWritable_iff, and_iff_right]
      exact hallowed.symm.imp_left fun h => Term.isDefaultGraph_iff.2 (h other hother)
    have hrefused : q.checkWritable = .error e → ¬q.IsWritable format := by
      intro herror
      rw [hchecked q (by simp), herror]
      simp
    rw [and_iff_right_of_imp hrefused]
    exact and_congr_left' (forall₂_congr fun other hother => (hchecked other (List.mem_append_left _ hother)).symm)

end Format

end RdfDataset
