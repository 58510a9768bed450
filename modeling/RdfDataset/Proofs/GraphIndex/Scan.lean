import RdfDataset.Proofs.GraphIndex.Replay

/-!
# Lookups and scans

A lookup descends one of three trees, whose levels hold the positions of a triple in different orders.  Whichever tree
that is, it finds what a scan of any of the trees finds that keeps the triples of the pattern.

* `GraphIndex.scan` reads all triples off one tree, without a pattern.
* `GraphIndex.Coherent.matching_perm_filter_scan`: a lookup is a scan of any tree with a filter behind it.
* `GraphIndex.matching_perm_scan`: after any calls, lookups, scans and counts agree on all patterns.
-/

namespace RdfDataset.GraphIndex

variable [Arrangement]

/-- All triples that the tree of an order holds, level by level. -/
def scan (g : GraphIndex) (order : IndexOrder) : List (Triple Nat) :=
  (g.tree order).toList.flatMap fun (a, branch) =>
    branch.toList.flatMap fun (b, leaf) => leaf.keys.map fun c => order.triple a b c

theorem scan_eq (g : GraphIndex) (order : IndexOrder) :
    g.scan order = ((g.tree order).lookUp none none none).map fun (a, b, c) => order.triple a b c := by
  simp [scan, Tree.lookUp, entriesAt, membersAt, List.map_flatMap, Function.comp_def]

/-- A scan finds what the tree of the order holds. -/
theorem mem_scan {g : GraphIndex} {order : IndexOrder} {t : Triple Nat} :
    t ∈ g.scan order ↔ g.holds order t = true := by
  rw [scan_eq, List.mem_map]
  constructor
  · rintro ⟨⟨a, b, c⟩, h, rfl⟩
    rw [holds, IndexOrder.keys_triple]
    exact (Tree.mem_lookUp.1 h).1
  · intro h
    have hkeys : order.keys t ∈ (g.tree order).lookUp none none none :=
      Tree.mem_lookUp.2 ⟨h, agrees_none _, agrees_none _, agrees_none _⟩
    exact ⟨_, hkeys, IndexOrder.triple_keys order t⟩

/-- A scan finds no triple twice. -/
theorem nodup_scan (g : GraphIndex) (order : IndexOrder) : (g.scan order).Nodup := by
  rw [scan_eq]
  refine (Tree.nodup_lookUp _ _ _ _).map ?_
  rintro ⟨a, b, c⟩ ⟨x, y, z⟩ h
  have hkeys := congrArg order.keys h
  rwa [IndexOrder.keys_triple, IndexOrder.keys_triple] at hkeys

/-- A lookup finds what any scan finds that agrees with the pattern, whichever tree the lookup descends. -/
theorem Coherent.matching_perm_filter_scan {g : GraphIndex} (hg : g.Coherent) (pattern : Triple (Option Nat))
    (order : IndexOrder) : (g.matching pattern).Perm ((g.scan order).filter (pattern.Matches ·)) := by
  rw [List.perm_ext_iff_of_nodup (g.nodup_matching pattern) ((g.nodup_scan order).filter _)]
  intro t
  rw [hg.mem_matching, List.mem_filter, decide_eq_true_iff, mem_scan, hg order t]

/-- Calls on an empty index leave a coherent index, of the triples of the set on which the calls are replayed. -/
theorem coherent_runSteps (cs : List IndexChange) :
    (runSteps IndexChange.run {} cs).2.Coherent ∧
      (runSteps IndexChange.run {} cs).2.triples = (runSteps IndexChange.replay ∅ cs).2 := by
  have hstep : ∀ (g : GraphIndex) s, g.Coherent ∧ g.triples = s → ∀ c : IndexChange,
      (c.run g).1 = (c.replay s).1 ∧ (c.run g).2.Coherent ∧ (c.run g).2.triples = (c.replay s).2 := by
    rintro g _ ⟨hg, rfl⟩ c
    exact c.run_refines hg
  exact (runSteps_refines hstep ⟨coherent_empty, triples_empty⟩ cs).2

/-- After any calls on an empty index, pruning or not, and for any pattern, a lookup lists the triples that are there and
agree with the pattern, each once and with its components in their positions.  A scan of any of the trees with a filter
behind it lists the same triples, and counting without listing gives their number. -/
theorem matching_perm_scan (cs : List IndexChange) (pattern : Triple (Option Nat)) :
    let g := (runSteps IndexChange.run {} cs).2
    (g.matching pattern).Nodup ∧
      (∀ s p o, ⟨s, p, o⟩ ∈ g.matching pattern ↔
        ⟨s, p, o⟩ ∈ (runSteps IndexChange.replay ∅ cs).2 ∧
          Agrees pattern.subject s ∧ Agrees pattern.predicate p ∧ Agrees pattern.object o) ∧
      (∀ order, (g.matching pattern).Perm ((g.scan order).filter (pattern.Matches ·))) ∧
      g.count pattern = (g.matching pattern).length := by
  intro g
  obtain ⟨hg, htriples⟩ := coherent_runSteps cs
  refine ⟨g.nodup_matching pattern, fun s p o => ?_, hg.matching_perm_filter_scan pattern, g.count_eq pattern⟩
  rw [hg.mem_matching, ← htriples, hg.mem_triples]
  exact Iff.rfl

end RdfDataset.GraphIndex
