import RdfDataset.Proofs.GraphIndex

/-!
# No empty levels

Adding a triple makes the levels that it needs, and taking one out with pruning takes out the levels that are left
empty.  So a tree that has always been pruned has no others, and its keys are those of its triples.

* `forall_getElem?_insert` and `forall_getElem?_erase`: what holds of all entries of a level.
* `Tree.Pruned`: no branch and no leaf is empty; `Tree.Pruned.insert` and `Tree.Pruned.erase` keep it.
* `Tree.Pruned.mem_iff` and `Tree.Pruned.mem_branch_iff`: the keys of the first two levels.
* `GraphIndex.Pruned` is the same of the three trees of a graph.
-/

namespace RdfDataset

variable [Arrangement]

/-! ### Levels -/

section Level

variable {β : Type} {level : Table β} {P : Nat → β → Prop} (h : ∀ n x, level[n]? = some x → P n x)
include h

/-- What holds of all entries holds of them when one is put in of which it holds. -/
theorem forall_getElem?_insert {m : Nat} {y : β} (hy : P m y) : ∀ n x, (level.insert m y)[n]? = some x → P n x := by
  intro n x hx
  rw [Table.getElem?_insert] at hx
  split at hx
  · rename_i heq
    rwa [heq, ← Option.some.inj hx]
  · exact h n x hx

/-- What holds of all entries holds of those that are left when one is taken out. -/
theorem forall_getElem?_erase (m : Nat) : ∀ n x, (level.erase m)[n]? = some x → P n x := by
  intro n x hx
  rw [Table.getElem?_erase] at hx
  split at hx
  · cases hx
  · exact h n x hx

end Level

/-! ### One tree -/

/-- No leaf is empty. -/
def Branch.Pruned (branch : Branch) : Prop :=
  ∀ (b : Nat) (leaf : Leaf), branch[b]? = some leaf → leaf.isEmpty = false

theorem Branch.Pruned.insert {branch : Branch} (h : Branch.Pruned branch) (b : Nat) {leaf : Leaf}
    (hleaf : leaf.isEmpty = false) : Branch.Pruned (branch.insert b leaf) :=
  forall_getElem?_insert (P := fun _ (leaf : Leaf) => leaf.isEmpty = false) h hleaf

theorem Branch.Pruned.erase {branch : Branch} (h : Branch.Pruned branch) (b : Nat) : Branch.Pruned (branch.erase b) :=
  forall_getElem?_erase (P := fun _ (leaf : Leaf) => leaf.isEmpty = false) h b

/-- No branch is empty, and none has an empty leaf. -/
def Tree.Pruned (t : Tree) : Prop :=
  ∀ (a : Nat) (branch : Branch), t[a]? = some branch → branch.isEmpty = false ∧ Branch.Pruned branch

namespace Tree

theorem pruned_empty : Tree.Pruned ∅ := by
  intro a branch h
  simp at h

namespace Pruned

variable {t : Tree} (ht : t.Pruned)
include ht

/-- The branch of a key has no empty leaf, also if there is none. -/
theorem branch (a : Nat) : Branch.Pruned (t.branch a) := by
  unfold Tree.branch
  cases ha : t[a]? with
  | none =>
    intro b leaf hleaf
    simp at hleaf
  | some branch => exact (ht a branch ha).2

theorem insert_branch (a : Nat) {branch : Branch} (hsome : branch.isEmpty = false) (hbranch : Branch.Pruned branch) :
    Tree.Pruned (Table.insert t a branch) :=
  forall_getElem?_insert (P := fun _ (branch : Branch) => branch.isEmpty = false ∧ Branch.Pruned branch) ht ⟨hsome, hbranch⟩

theorem erase_branch (a : Nat) : Tree.Pruned (Table.erase t a) :=
  forall_getElem?_erase (P := fun _ (branch : Branch) => branch.isEmpty = false ∧ Branch.Pruned branch) ht a

/-- The levels that a triple needs are not empty when it is in them. -/
theorem insert (a b c : Nat) : (t.insert a b c).Pruned := by
  have hleaf : ((t.leaf a b).insert c ()).isEmpty = false := Table.isEmpty_insert _ _ _
  exact ht.insert_branch a (Table.isEmpty_insert _ _ _) ((ht.branch a).insert b hleaf)

/-- Levels that are left empty are taken out. -/
theorem erase (a b c : Nat) : (t.erase true a b c).Pruned := by
  unfold Tree.erase
  split
  · dsimp only
    split
    · split
      · exact ht.erase_branch a
      · rename_i hrest
        exact ht.insert_branch a (eq_false_of_ne_true hrest) ((ht.branch a).erase b)
    · rename_i hrest
      rw [Bool.true_and] at hrest
      exact ht.insert_branch a (Table.isEmpty_insert _ _ _) ((ht.branch a).insert b (eq_false_of_ne_true hrest))
  · exact ht

/-- The second keys under a first one are those of triples. -/
theorem mem_branch_iff {a b : Nat} : b ∈ t.branch a ↔ ∃ c, t.contains a b c = true := by
  rw [← Table.isSome_getElem?_iff_mem]
  unfold Tree.contains Tree.leaf
  cases hb : (t.branch a)[b]? with
  | none => simp
  | some leaf =>
    have hleaf := ht.branch a b leaf hb
    simpa [Table.contains_iff_mem] using Table.isEmpty_eq_false_iff_exists_mem.1 hleaf

/-- The first keys are those of triples. -/
theorem mem_iff {a : Nat} : a ∈ t ↔ ∃ b c, t.contains a b c = true := by
  simp only [← ht.mem_branch_iff]
  rw [← Table.isSome_getElem?_iff_mem]
  unfold Tree.branch
  cases ha : t[a]? with
  | none => simp
  | some branch =>
    have hbranch := (ht a branch ha).1
    simpa using Table.isEmpty_eq_false_iff_exists_mem.1 hbranch

end Pruned

end Tree

/-! ### Three trees -/

namespace GraphIndex

/-- A graph is not empty once a triple has been added, whether it was new or not. -/
theorem isEmpty_insert (g : GraphIndex) (t : Triple Nat) : (g.insert t).2.isEmpty = false := by
  refine eq_false_of_ne_true fun hempty => ?_
  have hnone := isEmpty_iff.1 hempty t
  rw [(contains_insert g t t).2 (.inl rfl)] at hnone
  cases hnone

/-- No tree has an empty level. -/
def Pruned (g : GraphIndex) : Prop :=
  ∀ order, (g.tree order).Pruned

theorem pruned_empty : Pruned {} := by
  intro order
  cases order <;> exact Tree.pruned_empty

namespace Pruned

variable {g : GraphIndex} (hg : g.Pruned)
include hg

theorem insert (t : Triple Nat) : (g.insert t).2.Pruned := by
  by_cases h : g.contains t = true
  · rwa [insert_of_contains h]
  · intro order
    rw [tree_insert (eq_false_of_ne_true h)]
    exact (hg order).insert _ _ _

theorem erase (t : Triple Nat) : (g.erase true t).2.Pruned := by
  by_cases h : g.contains t = true
  · intro order
    rw [tree_erase h]
    exact (hg order).erase _ _ _
  · rwa [erase_of_not_contains true (eq_false_of_ne_true h)]

/-- The first keys of a tree are what the triples have in the position at its root. -/
theorem mem_tree_iff (hcoherent : g.Coherent) {order : IndexOrder} {a : Nat} :
    a ∈ g.tree order ↔ ∃ b c, g.contains (order.triple a b c) = true := by
  simp only [(hg order).mem_iff, ← hcoherent order, holds, IndexOrder.keys_triple]

/-- The pairs of the first two keys are what the triples have in these positions. -/
theorem mem_branch_iff (hcoherent : g.Coherent) {order : IndexOrder} {a b : Nat} :
    b ∈ (g.tree order).branch a ↔ ∃ c, g.contains (order.triple a b c) = true := by
  simp only [(hg order).mem_branch_iff, ← hcoherent order, holds, IndexOrder.keys_triple]

end Pruned

end GraphIndex

end RdfDataset
