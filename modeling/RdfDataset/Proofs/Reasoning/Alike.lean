import RdfDataset.Proofs.Reasoning.Termination
import RdfDataset.Proofs.Rule.Scope

/-!
# Closing indices of the same triples

Two indices can hold the same triples and list them differently, so that two runs draw their conclusions in different
orders and have different tasks on the way.  They come to the same end, since what is closed depends on the triples
alone.

* `GraphIndex.Alike`: coherent indices of the same triples.
* `closeGraph_derived`: the triples that are derived are those by which the graph grows.
* `GraphIndex.Alike.closeGraph`: closing alike indices gives alike indices and derives as much.
* `closeGraph_of_forall_not_contains`: an index without triples stays as it is.
-/

namespace RdfDataset

variable [Arrangement] {g g' : GraphIndex}

namespace GraphIndex

/-- Two coherent indices hold the same triples. -/
structure Alike (g g' : GraphIndex) : Prop where
  left : g.Coherent
  right : g'.Coherent
  contains : ∀ t, g'.contains t = g.contains t

theorem Alike.triples (h : g.Alike g') : g'.triples = g.triples := by
  ext t
  rw [h.left.mem_triples, h.right.mem_triples, h.contains]

/-- A graph grows by the triples that are new. -/
theorem Coherent.card_triples_runSteps (hg : g.Coherent) (ts : List (Triple Nat)) :
    (runSteps GraphIndex.insert g ts).2.triples.card = g.triples.card + (g.added ts).length := by
  induction ts generalizing g with
  | nil => rfl
  | cons t ts ih =>
    have hrest := ih (hg.insert t)
    have hstep : (runSteps GraphIndex.insert g (t :: ts)).2 = (runSteps GraphIndex.insert (g.insert t).2 ts).2 := rfl
    rw [hstep, hrest, hg.triples_insert, added]
    by_cases hold : g.contains t = true
    · have hnew : (g.insert t).1 = false := by simp [insert_fst, hold]
      rw [Finset.insert_eq_of_mem (hg.mem_triples.2 hold), hnew]
      rfl
    · have hnew : (g.insert t).1 = true := by simp [insert_fst, hold]
      rw [Finset.card_insert_of_notMem (mt hg.mem_triples.1 hold), if_pos hnew, List.length_cons]
      omega

end GraphIndex

/-! ### Compiled rules -/

section Compiled

variable {rules : List Rule} {terms : Interner} {compiled : List CompiledRule}

/-- Closing a graph derives the triples by which it grows. -/
theorem closeGraph_derived (hcompiled : (compileRules rules terms).1 = .ok compiled) {index : GraphIndex}
    (hindex : index.Coherent) :
    (closeGraph compiled index).index.triples.card = index.triples.card + (closeGraph compiled index).derived := by
  have hover : ∀ rule ∈ compiled, rule.Over Set.univ := fun rule _ c _ id _ => Set.mem_univ id
  have hlinks := length_links_of_compileRules hcompiled
  have hstart : Closure.Within Set.univ index { index } :=
    ⟨hindex, fun t _ n _ => Set.mem_univ n, by simp, fun _ => rfl⟩
  have hseed := Closure.draws_seed hover hlinks hstart
  have hdraws := hseed.trans (Closure.draws_propagate hover hlinks (hstart.seed hover) (stepBound compiled index))
  rw [closeGraph, hdraws.index, hdraws.derived, hindex.card_triples_runSteps, Nat.zero_add]

/-- Closing alike indices gives alike indices, and derives as many triples. -/
theorem GraphIndex.Alike.closeGraph (h : g.Alike g') (hterms : terms.Sound)
    (hcompiled : (compileRules rules terms).1 = .ok compiled) :
    (RdfDataset.closeGraph compiled g).index.Alike (RdfDataset.closeGraph compiled g').index ∧
      (RdfDataset.closeGraph compiled g').derived = (RdfDataset.closeGraph compiled g).derived := by
  have hlinked := (transcribes_of_compileRules hterms hcompiled).1
  -- both hold the triples of every closed set that contains those of the indices
  have hclosed : (RdfDataset.closeGraph compiled g).index.Alike (RdfDataset.closeGraph compiled g').index := by
    refine ⟨(invariant_closeGraph hlinked h.left).1.coherent, (invariant_closeGraph hlinked h.right).1.coherent,
      fun t => ?_⟩
    rw [Bool.eq_iff_iff, contains_closeGraph hlinked h.left, contains_closeGraph hlinked h.right]
    simp only [h.contains]
  refine ⟨hclosed, ?_⟩
  have hleft := closeGraph_derived hcompiled h.left
  have hright := closeGraph_derived hcompiled h.right
  rw [hclosed.triples, h.triples] at hright
  omega

omit [Arrangement] in
/-- A rule that has been compiled has a premise. -/
theorem premise_ne_nil_of_compileRules (hterms : terms.Sound) (hcompiled : (compileRules rules terms).1 = .ok compiled) :
    ∀ rule ∈ compiled, rule.premise ≠ [] := by
  have husable := (exists_compileRules_iff hterms).1 ⟨compiled, hcompiled⟩
  obtain ⟨hlength, hget⟩ := List.forall₂_iff_get.1 (transcribes_of_compileRules hterms hcompiled).2
  intro rule hrule
  obtain ⟨number, hnumber, rfl⟩ := List.getElem_of_mem hrule
  obtain ⟨slot, htranscribes⟩ := hget number (hlength ▸ hnumber) hnumber
  have hpremise := htranscribes.premise
  simp only [List.get_eq_getElem] at hpremise
  rw [hpremise, ne_eq, List.map_eq_nil_iff]
  exact (husable _ (List.getElem_mem _)).nonempty

end Compiled

/-! ### Indices without triples -/

/-- A premise that is not empty has no solutions where there are no triples. -/
theorem solve_of_forall_not_contains (hg : g.Coherent) (hempty : ∀ t, g.contains t = false)
    (conclusions : List Conclusion) {atoms : List Atom} (hatoms : atoms ≠ []) (env : Env) :
    solve g conclusions atoms env = ([], env) := by
  cases atoms with
  | nil => exact absurd rfl hatoms
  | cons atom rest =>
    have hnone : g.matching (atom.map env.value) = [] := by
      rw [List.eq_nil_iff_forall_not_mem]
      intro t ht
      have hcontains := (hg.mem_matching.1 ht).1
      rw [hempty] at hcontains
      cases hcontains
    rw [solve, hnone, List.foldl_nil]

/-- Rules with premises conclude nothing where there are no triples. -/
theorem closeGraph_of_forall_not_contains {rules : List CompiledRule} (hrules : ∀ rule ∈ rules, rule.premise ≠ [])
    (hg : g.Coherent) (hempty : ∀ t, g.contains t = false) : closeGraph rules g = { index := g } := by
  have hseed : Closure.seed rules { index := g } = { index := g } := by
    induction rules with
    | nil => rfl
    | cons rule rules ih =>
      obtain ⟨hrule, hrest⟩ := List.forall_mem_cons.1 hrules
      have hfirst := solve_of_forall_not_contains hg hempty rule.conclusion hrule (.unbound rule.variableCount)
      rw [Closure.seed, List.foldl_cons, hfirst]
      exact ih hrest
  rw [closeGraph, hseed]
  cases stepBound rules g <;> rfl

end RdfDataset
