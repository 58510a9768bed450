import RdfDataset.Proofs.GraphIndex

/-!
# What stands in one position of the triples

The terms in one position are read off different trees at different depths, and a level that has been emptied without
pruning is passed over.  Whichever way is taken, it lists what a lookup has in this position, each number once.

* `Tree.mem_branchKeys`, `Tree.mem_keysThrough` and `Tree.mem_rootKeys`: the keys that are listed are those of triples;
  each comes once.
* `Enumerates`: a list has the members of another one, each once.
* `GraphIndex.Coherent.enumerates_subjects`, `GraphIndex.Coherent.enumerates_predicates` and
  `GraphIndex.Coherent.enumerates_objects`: the enumerations of an index are the projections of its lookups, which
  together is `GraphIndex.EnumeratesPositions`.
-/

namespace RdfDataset

/-! ### Enumerations -/

/-- A list has the members of another one, each once. -/
structure Enumerates {α : Type} (xs ys : List α) : Prop where
  nodup : xs.Nodup
  mem_iff : ∀ x, x ∈ xs ↔ x ∈ ys

/-- Enumerations of two lists with the same members differ in their order only. -/
theorem Enumerates.perm {α : Type} {xs ys zs ws : List α} (h : Enumerates xs zs) (h' : Enumerates ys ws)
    (hperm : zs.Perm ws) : xs.Perm ys :=
  (List.perm_ext_iff_of_nodup h.nodup h'.nodup).2 fun x =>
    (h.mem_iff x).trans (hperm.mem_iff.trans (h'.mem_iff x).symm)

variable [Arrangement]

/-! ### One level -/

section Level

variable {β : Type} {level : Table β}

/-- The keys of some entries come once each. -/
theorem nodup_keys_filter (level : Table β) (keep : Nat × β → Bool) :
    ((level.toList.filter keep).map (·.1)).Nodup := by
  refine List.Nodup.sublist (List.filter_sublist.map _) ?_
  rw [level.map_fst_toList]
  exact level.nodup_keys

theorem mem_keys_filter {keep : Nat × β → Bool} {a : Nat} :
    a ∈ (level.toList.filter keep).map (·.1) ↔ ∃ x, level[a]? = some x ∧ keep (a, x) = true := by
  simp only [List.mem_map, List.mem_filter, Prod.exists, Table.mem_toList]
  constructor
  · rintro ⟨a, x, ⟨hx, hkeep⟩, rfl⟩
    exact ⟨x, hx, hkeep⟩
  · rintro ⟨x, hx, hkeep⟩
    exact ⟨a, x, ⟨hx, hkeep⟩, rfl⟩

theorem isEmpty_leaf_eq_false {leaf : Leaf} : (!leaf.isEmpty) = true ↔ ∃ c, leaf.contains c = true := by
  simp only [Bool.not_eq_true', Table.isEmpty_eq_false_iff_exists_mem, Table.contains_iff_mem]

end Level

/-! ### One tree -/

namespace Tree

variable {t : Tree} {a b c : Nat}

theorem mem_keys_leaf : c ∈ (t.leaf a b).keys ↔ t.contains a b c = true :=
  Table.mem_keys.trans Table.contains_iff_mem.symm

theorem nodup_branchKeys (t : Tree) (a : Nat) : (t.branchKeys a).Nodup :=
  nodup_keys_filter _ _

theorem nodup_keysThrough (t : Tree) (b : Nat) : (t.keysThrough b).Nodup :=
  nodup_keys_filter _ _

theorem nodup_rootKeys (t : Tree) : t.rootKeys.Nodup :=
  nodup_keys_filter _ _

/-- The keys of a branch are those of its leaves that are not empty. -/
theorem mem_branchKeys : b ∈ t.branchKeys a ↔ ∃ c, t.contains a b c = true := by
  have hleaf : t.leaf a b = (t.branch a)[b]?.getD ∅ := rfl
  rw [branchKeys, mem_keys_filter]
  simp only [isEmpty_leaf_eq_false, Tree.contains, hleaf]
  cases (t.branch a)[b]? with
  | none => simp
  | some leaf => simp

/-- The keys through which a second key is reached have a leaf for it that is not empty. -/
theorem mem_keysThrough : a ∈ t.keysThrough b ↔ ∃ c, t.contains a b c = true := by
  rw [keysThrough, mem_keys_filter]
  simp only [isEmpty_leaf_eq_false]
  constructor
  · rintro ⟨-, -, hc⟩
    exact hc
  · rintro ⟨c, hc⟩
    obtain ⟨branch, -, ha, -⟩ := contains_iff.1 hc
    exact ⟨branch, ha, c, hc⟩

/-- The keys at the root are those of branches with some leaf that is not empty. -/
theorem mem_rootKeys : a ∈ t.rootKeys ↔ ∃ b c, t.contains a b c = true := by
  rw [rootKeys, mem_keys_filter]
  simp only [contains_iff, List.any_eq_true, Prod.exists, Table.mem_toList,
    isEmpty_leaf_eq_false]
  constructor
  · rintro ⟨branch, ha, b, leaf, hb, c, hc⟩
    exact ⟨b, c, branch, leaf, ha, hb, hc⟩
  · rintro ⟨b, c, branch, leaf, ha, hb, hc⟩
    exact ⟨branch, ha, b, leaf, hb, c, hc⟩

end Tree

/-! ### Three trees -/

namespace GraphIndex

variable {g : GraphIndex} (hg : g.Coherent)
include hg

/-- What a lookup has in some position, by the components of the triples. -/
theorem Coherent.mem_map_matching (pattern : Triple (Option Nat)) (position : Triple Nat → Nat) (n : Nat) :
    n ∈ (g.matching pattern).map position ↔ ∃ s p o, g.contains ⟨s, p, o⟩ = true ∧ Agrees pattern.subject s ∧
      Agrees pattern.predicate p ∧ Agrees pattern.object o ∧ position ⟨s, p, o⟩ = n := by
  simp only [List.mem_map, hg.mem_matching, Triple.Matches]
  constructor
  · rintro ⟨⟨s, p, o⟩, ⟨ht, hs, hp, ho⟩, hn⟩
    exact ⟨s, p, o, ht, hs, hp, ho, hn⟩
  · rintro ⟨s, p, o, ht, hs, hp, ho, hn⟩
    exact ⟨⟨s, p, o⟩, ⟨ht, hs, hp, ho⟩, hn⟩

private theorem contains_byPredicate (s p o : Nat) : g.byPredicate.contains p o s = g.contains ⟨s, p, o⟩ :=
  hg .predicates ⟨s, p, o⟩

private theorem contains_byObject (s p o : Nat) : g.byObject.contains o s p = g.contains ⟨s, p, o⟩ :=
  hg .objects ⟨s, p, o⟩

omit hg in
private theorem contains_bySubject (s p o : Nat) : g.bySubject.contains s p o = g.contains ⟨s, p, o⟩ :=
  rfl

/-- The subjects of triples with a given predicate and object are those that a lookup of these finds. -/
theorem Coherent.enumerates_subjects (p o : Option Nat) :
    Enumerates (g.subjects p o) ((g.matching ⟨none, p, o⟩).map Triple.subject) := by
  cases p <;> cases o
  · refine ⟨Tree.nodup_rootKeys _, fun n => ?_⟩
    rw [subjects, Tree.mem_rootKeys, hg.mem_map_matching]
    simp [contains_bySubject]
  · refine ⟨Tree.nodup_branchKeys _ _, fun n => ?_⟩
    rw [subjects, Tree.mem_branchKeys, hg.mem_map_matching]
    simp [contains_byObject hg]
  · refine ⟨Tree.nodup_keysThrough _ _, fun n => ?_⟩
    rw [subjects, Tree.mem_keysThrough, hg.mem_map_matching]
    simp [contains_bySubject]
  · refine ⟨Table.nodup_keys _, fun n => ?_⟩
    rw [subjects, Tree.mem_keys_leaf, hg.mem_map_matching]
    simp [contains_byPredicate hg]

/-- The predicates of triples with a given subject and object are those that a lookup of these finds. -/
theorem Coherent.enumerates_predicates (s o : Option Nat) :
    Enumerates (g.predicates s o) ((g.matching ⟨s, none, o⟩).map Triple.predicate) := by
  cases s <;> cases o
  · refine ⟨Tree.nodup_rootKeys _, fun n => ?_⟩
    rw [predicates, Tree.mem_rootKeys, hg.mem_map_matching]
    simpa [contains_byPredicate hg] using exists_comm
  · refine ⟨Tree.nodup_keysThrough _ _, fun n => ?_⟩
    rw [predicates, Tree.mem_keysThrough, hg.mem_map_matching]
    simp [contains_byPredicate hg]
  · refine ⟨Tree.nodup_branchKeys _ _, fun n => ?_⟩
    rw [predicates, Tree.mem_branchKeys, hg.mem_map_matching]
    simp [contains_bySubject]
  · refine ⟨Table.nodup_keys _, fun n => ?_⟩
    rw [predicates, Tree.mem_keys_leaf, hg.mem_map_matching]
    simp [contains_byObject hg]

/-- The objects of triples with a given subject and predicate are those that a lookup of these finds. -/
theorem Coherent.enumerates_objects (s p : Option Nat) :
    Enumerates (g.objects s p) ((g.matching ⟨s, p, none⟩).map Triple.object) := by
  cases s <;> cases p
  · refine ⟨Tree.nodup_rootKeys _, fun n => ?_⟩
    rw [objects, Tree.mem_rootKeys, hg.mem_map_matching]
    simp [contains_byObject hg]
  · refine ⟨Tree.nodup_branchKeys _ _, fun n => ?_⟩
    rw [objects, Tree.mem_branchKeys, hg.mem_map_matching]
    simp [contains_byPredicate hg]
  · refine ⟨Tree.nodup_keysThrough _ _, fun n => ?_⟩
    rw [objects, Tree.mem_keysThrough, hg.mem_map_matching]
    simp [contains_byObject hg]
  · refine ⟨Table.nodup_keys _, fun n => ?_⟩
    rw [objects, Tree.mem_keys_leaf, hg.mem_map_matching]
    simp [contains_bySubject]

omit hg in
/-- Whatever is known of the other positions, an index lists what a lookup has in a position, each number once. -/
structure EnumeratesPositions (g : GraphIndex) : Prop where
  subjects : ∀ p o, Enumerates (g.subjects p o) ((g.matching ⟨none, p, o⟩).map Triple.subject)
  predicates : ∀ s o, Enumerates (g.predicates s o) ((g.matching ⟨s, none, o⟩).map Triple.predicate)
  objects : ∀ s p, Enumerates (g.objects s p) ((g.matching ⟨s, p, none⟩).map Triple.object)

theorem Coherent.enumeratesPositions : g.EnumeratesPositions where
  subjects := hg.enumerates_subjects
  predicates := hg.enumerates_predicates
  objects := hg.enumerates_objects

end GraphIndex

end RdfDataset
