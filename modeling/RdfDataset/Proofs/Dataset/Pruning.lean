import RdfDataset.Proofs.Dataset.Lockstep
import RdfDataset.Proofs.GraphIndex.Replay

/-!
# Pruning cannot be observed

Whether removals prune decides which empty levels a dataset keeps, and with them in which order its tables list what is
there.  Two datasets that differ in this setting alone answer every sequence of requests alike, however changes and
queries follow each other, as long as nothing follows `rdf:nil` when lists are extracted.

* `Request` is anything that is asked of a dataset or done with it, `Answer` what comes of it.
* `Request.run_alike` is one request, `Dataset.answers_eq_of_prune` any number of them.
-/

namespace RdfDataset

open Vocabulary.Rdf

/-- A question about the quads of a dataset. -/
inductive Query
  | contains (q : Quad)
  | matching (pattern : Pattern)
  | count (pattern : Pattern)
  | any (pattern : Pattern) (test : Quad → Bool)
  | every (pattern : Pattern) (test : Quad → Bool)
  | subjects (pattern : Pattern)
  | predicates (pattern : Pattern)
  | objects (pattern : Pattern)
  | graphNames (pattern : Pattern)

/-- A call on a dataset, or a question. -/
inductive Request
  | call (c : Call)
  | query (q : Query)

/-- What comes of a request.  Quads, terms and lists come in no order.  Of the faults of lists only their number is
told, or that there are any, and of reasoning only the numbers of rules and of derived triples.  A call that does not
return has an answer of its own. -/
inductive Answer
  | outcome (o : Outcome)
  | node (r : Except TermError Term)
  | holds (b : Bool)
  | number (n : Nat)
  | quads (all : Multiset Quad)
  | terms (all : Multiset Term)
  | lists (all : Multiset (Term × List Term)) (faults : Nat)
  | malformed
  | endless
  | loaded (r : Except ReadError Nat)
  | reasoned (r : Except RuleError (Nat × Nat))

/-- What an extraction of lists tells. -/
def Answer.ofExtraction : Gathered Extraction → Answer
  | .ok found => .lists found.lists found.faults.length
  | .error _ => .malformed
  | .endless _ => .endless

/-- What a run of a reasoner tells. -/
def Answer.ofReasoning (r : Except RuleError ReasoningStats) : Answer :=
  .reasoned (r.map fun stats => (stats.rules, stats.derived))

/-- Extractions that have found the same tell the same. -/
theorem FoundAlike.ofExtraction_eq {r r' : Gathered Extraction} (h : FoundAlike r r') :
    Answer.ofExtraction r' = .ofExtraction r := by
  cases h with
  | ok hlists hfaults =>
    rw [Answer.ofExtraction, Answer.ofExtraction, hfaults]
    exact congrArg (Answer.lists · _) (Multiset.coe_eq_coe.2 hlists)
  | error e e' => rfl

section

variable [Arrangement]

/-- The answer to a question. -/
def Query.answer (d : Dataset) : Query → Answer
  | contains q => .holds (d.contains q)
  | matching pattern => .quads (d.matching pattern)
  | count pattern => .number (d.count pattern)
  | any pattern test => .holds (d.any pattern test)
  | every pattern test => .holds (d.every pattern test)
  | subjects pattern => .terms (d.subjects pattern)
  | predicates pattern => .terms (d.predicates pattern)
  | objects pattern => .terms (d.objects pattern)
  | graphNames pattern => .terms (d.graphNames pattern)

/-- The answer to a call. -/
def Call.answer (d : Dataset) : Call → Answer
  | update (.freshBlank suggestion) => .node (d.freshBlank suggestion).1
  | update u => .outcome (u.run d).1
  | size => .number d.size.1
  | isEmpty => .holds d.isEmpty.1
  | extractLists options => .ofExtraction (d.extractLists options).1
  | load format text base => .loaded (d.load format text base).1
  | loadFile path text base => .loaded (d.loadFile path text base).1
  | reason rules => .ofReasoning (d.reason rules).1
  | reasonIn rules graph => .ofReasoning (d.reasonIn rules graph).1
  | reasonRdfs rules => .ofReasoning (d.reasonRdfs rules).1

/-- The answer to a request, and what becomes of the dataset. -/
def Request.run (d : Dataset) : Request → Answer × Dataset
  | call c => (c.answer d, c.run d)
  | query q => (q.answer d, d)

namespace Dataset

variable {d e : Dataset}

/-- What agrees is told alike, whatever is told of it. -/
theorem Agree.map {α β : Type} {r r' : α × Dataset} (h : Agree r r') (tell : α → β) :
    tell r'.1 = tell r.1 ∧ r.2.Alike r'.2 :=
  ⟨congrArg tell h.1, h.2⟩

namespace Alike

variable (h : d.Alike e)
include h

/-- Alike datasets give the same answers to all questions. -/
theorem answer_query (q : Query) : q.answer e = q.answer d := by
  cases q with
  | contains q => exact congrArg Answer.holds (h.contains_quad q)
  | matching pattern => exact congrArg Answer.quads (Multiset.coe_eq_coe.2 (h.matching pattern))
  | count pattern => exact congrArg Answer.number (h.count pattern)
  | any pattern test => exact congrArg Answer.holds (h.any pattern test)
  | every pattern test => exact congrArg Answer.holds (h.every pattern test)
  | subjects pattern => exact congrArg Answer.terms (Multiset.coe_eq_coe.2 (h.subjects pattern))
  | predicates pattern => exact congrArg Answer.terms (Multiset.coe_eq_coe.2 (h.predicates pattern))
  | objects pattern => exact congrArg Answer.terms (Multiset.coe_eq_coe.2 (h.objects pattern))
  | graphNames pattern => exact congrArg Answer.terms (Multiset.coe_eq_coe.2 (h.graphNames pattern))

/-- An update of alike datasets says the same of both and leaves them alike. -/
theorem update (u : Update) : (Call.update u).answer e = (Call.update u).answer d ∧ (u.run d).2.Alike (u.run e).2 := by
  cases u <;> dsimp only [Call.answer, Update.run]
  case insert q => exact (h.insert q).map (Answer.outcome ∘ Outcome.changed)
  case insertMany quads => exact (h.insertMany quads).map (Answer.outcome ∘ Outcome.counted)
  case extend quads => exact ⟨rfl, (h.insertMany quads).2⟩
  case erase q => exact (h.erase q).map (Answer.outcome ∘ Outcome.changed)
  case eraseMany quads => exact (h.eraseMany quads).map (Answer.outcome ∘ Outcome.counted)
  case eraseMatching pattern => exact (h.eraseMatching pattern).map (Answer.outcome ∘ Outcome.counted)
  case eraseGraph graph => exact (h.eraseMatching { graph := some graph }).map (Answer.outcome ∘ Outcome.counted)
  case freshBlank suggestion => exact (h.freshBlank suggestion).map Answer.node
  case resetBlankCounter => exact ⟨rfl, h.resetBlankCounter⟩

/-- So does every other call, if nothing follows `rdf:nil` when it extracts lists. -/
theorem call (c : Call) (hnil : ∀ options, c = .extractLists options → d.NilEnds) :
    c.answer e = c.answer d ∧ (c.run d).Alike (c.run e) := by
  cases c with
  | update u => exact h.update u
  | size => exact ⟨congrArg Answer.number h.size, h.sized⟩
  | isEmpty => exact ⟨congrArg (fun n => Answer.holds (n == 0)) h.size, h.sized⟩
  | extractLists options =>
    obtain ⟨hfound, halike⟩ := h.extractLists (hnil options rfl) options
    exact ⟨hfound.ofExtraction_eq, halike⟩
  | load format text base => exact (h.load format text base).map Answer.loaded
  | loadFile path text base => exact (h.loadFile path text base).map Answer.loaded
  | reason rules => exact ⟨congrArg Answer.reasoned (h.reason rules).1, (h.reason rules).2⟩
  | reasonIn rules graph => exact ⟨congrArg Answer.reasoned (h.reasonIn rules graph).1, (h.reasonIn rules graph).2⟩
  | reasonRdfs rules => exact ⟨congrArg Answer.reasoned (h.reason _).1, (h.reason _).2⟩

end Alike

/-- An empty dataset is alike to one that prunes or does not prune. -/
theorem alike_empty (settings : Settings) (prune : Bool) :
    Alike { settings } { settings := { settings with pruneEmptyLevels := prune } } where
  left := .empty _
  right := .empty _
  terms := rfl
  nextBlank := rfl
  blankNodePrefix := rfl
  contains := fun _ _ => rfl

end Dataset

/-- A request to alike datasets is answered alike by both and leaves them alike. -/
theorem Request.run_alike {d e : Dataset} (h : d.Alike e) (r : Request)
    (hnil : ∀ options, r = .call (.extractLists options) → d.NilEnds) :
    (r.run d).1 = (r.run e).1 ∧ (r.run d).2.Alike (r.run e).2 := by
  cases r with
  | call c =>
    obtain ⟨hanswer, halike⟩ := h.call c fun options hc => hnil options (congrArg Request.call hc)
    exact ⟨hanswer.symm, halike⟩
  | query q => exact ⟨(h.answer_query q).symm, h⟩

/-- So are requests one after the other. -/
theorem Dataset.Alike.answers_eq {d e : Dataset} (h : d.Alike e) (requests : List Request)
    (hnil : ∀ before options after, requests = before ++ .call (.extractLists options) :: after →
      (runSteps Request.run d before).2.NilEnds) :
    (runSteps Request.run d requests).1 = (runSteps Request.run e requests).1 := by
  induction requests generalizing d e with
  | nil => rfl
  | cons r requests ih =>
    obtain ⟨hanswer, halike⟩ := r.run_alike h fun options hr => hnil [] options requests (hr ▸ rfl)
    have hrest := ih halike fun before options after hsplit =>
      hnil (r :: before) options after (congrArg (r :: ·) hsplit)
    rw [runSteps, runSteps, hanswer, hrest]

/-- Two datasets whose settings differ in pruning alone answer any requests alike, one after the other: changes of all
kinds, which may fail, and queries in between, if nothing follows `rdf:nil` whenever lists are extracted. -/
theorem Dataset.answers_eq_of_prune (settings : Settings) (prune : Bool) (requests : List Request)
    (hnil : ∀ before options after, requests = before ++ .call (.extractLists options) :: after →
      (runSteps Request.run { settings } before).2.NilEnds) :
    (runSteps Request.run { settings } requests).1 =
      (runSteps Request.run { settings := { settings with pruneEmptyLevels := prune } } requests).1 :=
  (alike_empty settings prune).answers_eq requests hnil

end

/-- A list is taken out after another graph has lost its only quad. -/
theorem Dataset.answers_eq_of_prune_emptied_graph :
    let q : Quad := ⟨.iri "a:s", .iri "a:p", .iri "a:o", .iri "a:g"⟩
    let list : List Quad := [⟨.blank "l", firstTerm, .iri "a:i", .defaultGraph⟩,
      ⟨.blank "l", restTerm, nilTerm, .defaultGraph⟩]
    let requests : List Request := [.call (.update (.insertMany (q :: list))), .call (.update (.erase q)),
      .call (.extractLists { remove := true }), .query (.graphNames {})]
    (∀ before options after, requests = before ++ .call (.extractLists options) :: after →
        (runSteps Request.run {} before).2.NilEnds) ∧
      (runSteps Request.run {} requests).1 =
        (runSteps Request.run { settings := { pruneEmptyLevels := false } } requests).1 := by
  intro q list requests
  have hiri : ∀ name ∈ ["a:s", "a:p", "a:o", "a:g", "a:i"], (Term.iri name).IsValid := by
    simp only [Term.isValid_iri]
    decide
  have hblank : (Term.blank "l").IsValid := Term.isValid_blank.2 (by decide)
  simp only [List.forall_mem_cons] at hiri
  have hvalid : ∀ q' ∈ q :: list, q'.IsValid := by
    simp only [q, list, List.forall_mem_cons, Quad.isValid_iff]
    simp [hiri, hblank, Cell.isValid_listTerms, Term.IsValid.defaultGraph]
  obtain ⟨hinserted, -, hquads, -⟩ := (Valid.empty {}).insertMany hvalid
  obtain ⟨-, -, herased, -⟩ := hinserted.erase (hvalid q List.mem_cons_self)
  have hends : (Dataset.erase (Dataset.insertMany {} (q :: list)).2 q).2.NilEnds := by
    rw [NilEnds, herased, hquads, Valid.quads_empty]
    decide
  have hafter : ∀ (d : Dataset) quads q,
      (runSteps Request.run d [.call (.update (.insertMany quads)), .call (.update (.erase q))]).2 =
        ((d.insertMany quads).2.erase q).2 := fun _ _ _ => rfl
  have hnil : ∀ before options after, requests = before ++ .call (.extractLists options) :: after →
      (runSteps Request.run {} before).2.NilEnds := by
    intro before options after hsplit
    -- the third request is the only extraction
    obtain rfl : before = [.call (.update (.insertMany (q :: list))), .call (.update (.erase q))] := by
      rcases before with _ | ⟨_, _ | ⟨_, _ | ⟨_, _ | ⟨_, before⟩⟩⟩⟩ <;> simp_all [requests]
    rw [hafter]
    exact hends
  exact ⟨hnil, Dataset.answers_eq_of_prune {} false requests hnil⟩

end RdfDataset
